import RpgLowering.Proofs.Declarations
import Mathlib.Logic.Relation

/-! Programs while they are built, one request after another. A member keeps the place and the name
it was declared with, and no other member of its kind gets that name. -/
namespace RpgLowering

section
variable {α β : Type}

theorem map_modify {key : α → β} {change : α → α} {l : List α} {i : Nat}
    (h : ∀ a ∈ l[i]?, key (change a) = key a) : (l.modify i change).map key = l.map key := by
  refine List.ext_getElem? fun j => ?_
  rw [List.getElem?_map, List.getElem?_map, List.getElem?_modify, Option.map_eq_map]
  cases hj : l[j]? with
  | none => rfl
  | some a =>
    by_cases hij : i = j
    · subst hij
      simp [h a hj]
    · simp [hij]

theorem getElem?_of_extended {key : α → β} {l l' : List α}
    (h : l.map key <+: l'.map key) {i : Nat} {a : α} (ha : l[i]? = some a) :
    ∃ b, l'[i]? = some b ∧ key b = key a := by
  obtain ⟨rest, hrest⟩ := h
  have hlt : i < (l.map key).length := by
    rw [List.length_map]
    exact (List.getElem?_eq_some_iff.mp ha).1
  have hkey : (l'.map key)[i]? = some (key a) := by
    rw [← hrest, List.getElem?_append_left hlt, List.getElem?_map, ha, Option.map_some]
  rw [List.getElem?_map] at hkey
  exact Option.map_eq_some_iff.mp hkey

/-- Among distinct keys, the place of a key is where an element has it. -/
theorem findIdx?_eq_some_iff_key {key : α → String} {l : List α}
    (hn : (l.map key).Nodup) {k : String} {i : Nat} :
    l.findIdx? (key · == k) = some i ↔ ∃ a, l[i]? = some a ∧ key a = k := by
  constructor
  · intro h
    obtain ⟨hlt, hkey, -⟩ := List.findIdx?_eq_some_iff_getElem.mp h
    exact ⟨l[i], List.getElem?_eq_getElem hlt, beq_iff_eq.mp hkey⟩
  · rintro ⟨a, ha, rfl⟩
    exact findIdx?_key hn ha

end

namespace Core

/-- What is asked of a program while it is built. -/
inductive Request where
  | global (g : Global)
  | function (f : Function)
  | updateGlobal (id : GlobalId) (change : Global → Global)
  | updateFunction (id : FunctionId) (change : Function → Function)

/-- What a global is known by. -/
def Global.heading (g : Global) : String × Ty := (g.name, g.ty)

/-- An update leaves its member the name, and a global the type. -/
def Request.Keeps (p : Program) : Request → Prop
  | global _ | function _ => True
  | updateGlobal id change => ∀ g ∈ p.global? id, (change g).heading = g.heading
  | updateFunction id change => ∀ f ∈ p.function? id, (change f).name = f.name

namespace Program

/-- The program that a request leaves, also where it is refused. -/
def after (p : Program) : Request → Program
  | .global g => (p.declareGlobal g).2
  | .function f => (p.declareFunction f).2
  | .updateGlobal id change => p.modifyGlobal id change
  | .updateFunction id change => p.modifyFunction id change

/-- One program becomes another by requests that keep names and types. -/
def Builds : Program → Program → Prop :=
  Relation.ReflTransGen fun p q => ∃ r : Request, r.Keeps p ∧ p.after r = q

variable {p q : Program}

theorem declareGlobal_refused {g : Global} :
    (∃ e, (p.declareGlobal g).1 = .error e) ↔ g.name ∈ p.globals.map (·.name) := by
  by_cases h : g.name ∈ p.globals.map (·.name)
  · rw [declareGlobal_of_taken h]
    exact iff_of_true ⟨_, rfl⟩ h
  · rw [declareGlobal_of_free h]
    exact iff_of_false nofun h

theorem declareFunction_refused {f : Function} :
    (∃ e, (p.declareFunction f).1 = .error e) ↔ f.name ∈ p.functions.map (·.name) := by
  by_cases h : f.name ∈ p.functions.map (·.name)
  · rw [declareFunction_of_taken h]
    exact iff_of_true ⟨_, rfl⟩ h
  · rw [declareFunction_of_free h]
    exact iff_of_false nofun h

/-! ### What a request does to the names -/

def headings (p : Program) : List (String × Ty) := p.globals.map Global.heading

def functionNames (p : Program) : List String := p.functions.map (·.name)

theorem map_fst_headings (p : Program) : p.headings.map Prod.fst = p.globals.map (·.name) := by
  rw [headings, List.map_map]
  rfl

/-- A request adds a member under a name that is free among its kind, or changes no name at all. -/
theorem after_cases {r : Request} (h : r.Keeps p) :
    (p.after r).headings = p.headings ∧ (p.after r).functionNames = p.functionNames ∨
    (∃ heading, heading.1 ∉ p.headings.map Prod.fst ∧
      (p.after r).headings = p.headings ++ [heading] ∧
      (p.after r).functionNames = p.functionNames) ∨
    ∃ name, name ∉ p.functionNames ∧ (p.after r).headings = p.headings ∧
      (p.after r).functionNames = p.functionNames ++ [name] := by
  cases r with
  | global g =>
    by_cases hg : g.name ∈ p.globals.map (·.name)
    · rw [after, declareGlobal_of_taken hg]
      exact .inl ⟨rfl, rfl⟩
    · rw [after, declareGlobal_of_free hg, map_fst_headings]
      exact .inr (.inl ⟨g.heading, hg, by simp [headings], rfl⟩)
  | function f =>
    by_cases hf : f.name ∈ p.functions.map (·.name)
    · rw [after, declareFunction_of_taken hf]
      exact .inl ⟨rfl, rfl⟩
    · rw [after, declareFunction_of_free hf]
      exact .inr (.inr ⟨f.name, hf, rfl, by simp [functionNames]⟩)
  | updateGlobal id change => exact .inl ⟨map_modify h, rfl⟩
  | updateFunction id change => exact .inl ⟨rfl, map_modify h⟩

/-- The members of a program come first in another, by the same names and types. -/
structure Extends (p q : Program) : Prop where
  globals : p.headings <+: q.headings
  functions : p.functionNames <+: q.functionNames

theorem extends_after {r : Request} (h : r.Keeps p) : p.Extends (p.after r) := by
  rcases after_cases h with ⟨hg, hf⟩ | ⟨heading, -, hg, hf⟩ | ⟨name, -, hg, hf⟩
  · exact ⟨hg ▸ List.prefix_rfl, hf ▸ List.prefix_rfl⟩
  · exact ⟨hg ▸ List.prefix_append .., hf ▸ List.prefix_rfl⟩
  · exact ⟨hg ▸ List.prefix_rfl, hf ▸ List.prefix_append ..⟩

/-- No two members of one kind have the same name. -/
structure Distinct (p : Program) : Prop where
  globals : (p.headings.map Prod.fst).Nodup
  functions : p.functionNames.Nodup

theorem Distinct.after {r : Request} (hp : p.Distinct) (h : r.Keeps p) : (p.after r).Distinct := by
  rcases after_cases h with ⟨hg, hf⟩ | ⟨heading, hfree, hg, hf⟩ | ⟨name, hfree, hg, hf⟩
  · exact ⟨hg ▸ hp.globals, hf ▸ hp.functions⟩
  · refine ⟨?_, hf ▸ hp.functions⟩
    rw [hg, List.map_append, List.map_singleton, ← List.concat_eq_append]
    exact hp.globals.concat hfree
  · refine ⟨hg ▸ hp.globals, ?_⟩
    rw [hf, ← List.concat_eq_append]
    exact hp.functions.concat hfree

/-! ### What a run of requests does to them -/

theorem Builds.extends (h : Builds p q) : p.Extends q := by
  induction h with
  | refl => exact ⟨List.prefix_rfl, List.prefix_rfl⟩
  | tail _ hstep ih =>
    obtain ⟨r, hr, rfl⟩ := hstep
    have hlast := extends_after hr
    exact ⟨ih.globals.trans hlast.globals, ih.functions.trans hlast.functions⟩

theorem Builds.distinct (h : Builds p q) (hp : p.Distinct) : q.Distinct := by
  induction h with
  | refl => exact hp
  | tail _ hstep ih =>
    obtain ⟨r, hr, rfl⟩ := hstep
    exact ih.after hr

theorem distinct_new (name : String) : (new name).Distinct := ⟨List.nodup_nil, List.nodup_nil⟩

theorem Distinct.findGlobal?_eq_some (h : p.Distinct) {name : String} {id : GlobalId} :
    p.findGlobal? name = some id ↔ ∃ g, p.global? id = some g ∧ g.name = name := by
  have hn := h.globals
  rw [map_fst_headings] at hn
  unfold Program.global?
  rw [← findIdx?_eq_some_iff_key hn, findGlobal?]
  cases id
  simp

theorem Distinct.findFunction?_eq_some (h : p.Distinct) {name : String} {id : FunctionId} :
    p.findFunction? name = some id ↔ ∃ f, p.function? id = some f ∧ f.name = name := by
  unfold Program.function?
  rw [← findIdx?_eq_some_iff_key h.functions, findFunction?]
  cases id
  simp

/-- Ids and names of a program determine each other, however it was built. No name is given twice, a
name finds exactly the id that has it, and what an id stood for when it was given out it stands for
ever after. A declaration is refused exactly if its name is taken among its own kind, and then
changes nothing. -/
theorem ids_and_names_correspond (name : String) {p : Program} (h : Builds (new name) p) :
    (p.globals.map (·.name)).Nodup ∧ (p.functions.map (·.name)).Nodup ∧
    (∀ id n, p.findGlobal? n = some id ↔ ∃ g, p.global? id = some g ∧ g.name = n) ∧
    (∀ id n, p.findFunction? n = some id ↔ ∃ f, p.function? id = some f ∧ f.name = n) ∧
    (∀ g id q, p.declareGlobal g = (.ok id, q) → ∀ q', Builds q q' →
      ∃ g', q'.global? id = some g' ∧ g'.name = g.name ∧ g'.ty = g.ty) ∧
    (∀ f id q, p.declareFunction f = (.ok id, q) → ∀ q', Builds q q' →
      ∃ f', q'.function? id = some f' ∧ f'.name = f.name) ∧
    (∀ g, ((∃ e, (p.declareGlobal g).1 = .error e) ↔ g.name ∈ p.globals.map (·.name)) ∧
      (g.name ∈ p.globals.map (·.name) → (p.declareGlobal g).2 = p)) ∧
    ∀ f, ((∃ e, (p.declareFunction f).1 = .error e) ↔ f.name ∈ p.functions.map (·.name)) ∧
      (f.name ∈ p.functions.map (·.name) → (p.declareFunction f).2 = p) := by
  have hp := h.distinct (distinct_new name)
  refine ⟨?_, hp.functions, fun id n => hp.findGlobal?_eq_some,
    fun id n => hp.findFunction?_eq_some, ?_, ?_,
    fun g => ⟨declareGlobal_refused, fun hg => congrArg Prod.snd (declareGlobal_of_taken hg)⟩,
    fun f => ⟨declareFunction_refused, fun hf => congrArg Prod.snd (declareFunction_of_taken hf)⟩⟩
  · rw [← map_fst_headings]
    exact hp.globals
  · -- the new member is the last one, and what follows only adds behind it
    intro g id q hg q' hq
    obtain ⟨hfree, -⟩ := declareGlobal_eq_ok.mp (congrArg Prod.fst hg)
    cases (declareGlobal_of_free hfree).symm.trans hg
    obtain ⟨g', hg', hkey⟩ := getElem?_of_extended hq.extends.globals List.getElem?_concat_length
    exact ⟨g', hg', congrArg Prod.fst hkey, congrArg Prod.snd hkey⟩
  · intro f id q hf q' hq
    obtain ⟨hfree, -⟩ := declareFunction_eq_ok.mp (congrArg Prod.fst hf)
    cases (declareFunction_of_free hfree).symm.trans hf
    exact getElem?_of_extended hq.extends.functions List.getElem?_concat_length

/-- A global, its name once more, a first value, and a function of that name. -/
def counter : Program :=
  [ .global { name := "N", ty := .integer }, .global { name := "N", ty := .string },
    .updateGlobal ⟨0⟩ (fun g => { g with initial := some (.integer 1) }),
    .function { name := "N" } ].foldl after (new "Counter")

theorem ids_and_names_of_counter : Builds (new "Counter") counter ∧
    counter.findGlobal? "N" = some ⟨0⟩ ∧ counter.findFunction? "N" = some ⟨0⟩ ∧
    (∃ g, counter.global? ⟨0⟩ = some g ∧ g.name = "N" ∧ g.ty = .integer) ∧
    ∃ e, (counter.declareGlobal { name := "N", ty := .decimal }).1 = .error e := by
  have hrest :
      Builds ((new "Counter").after (.global { name := "N", ty := .integer })) counter := by
    refine .head ⟨.global { name := "N", ty := .string }, trivial, rfl⟩ ?_
    refine .head ⟨.updateGlobal ⟨0⟩ (fun g => { g with initial := some (.integer 1) }),
      fun g _ => rfl, rfl⟩ ?_
    exact .single ⟨.function { name := "N" }, trivial, rfl⟩
  have hall : Builds (new "Counter") counter :=
    .head ⟨.global { name := "N", ty := .integer }, trivial, rfl⟩ hrest
  obtain ⟨-, -, -, -, hlasting, -⟩ := ids_and_names_correspond "Counter" .refl
  obtain ⟨-, -, hglobal, hfunction, -, -, hrefused, -⟩ := ids_and_names_correspond "Counter" hall
  exact ⟨hall, (hglobal ⟨0⟩ "N").mpr ⟨_, rfl, rfl⟩, (hfunction ⟨0⟩ "N").mpr ⟨_, rfl, rfl⟩,
    hlasting _ _ _ rfl _ hrest, (hrefused _).1.mpr List.mem_cons_self⟩

end Program

end Core

end RpgLowering
