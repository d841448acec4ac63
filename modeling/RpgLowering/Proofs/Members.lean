import RpgLowering.Proofs.Lowered

/-! What each global and each function of the program of a unit is made of, said in the scope of the
whole unit: a global of the first declaration of its identity, a function of the first subroutine
and the last. -/
namespace RpgLowering.Source

/-- The last subroutine with an identity. -/
def CompilationUnit.lastSubroutine? (u : CompilationUnit) (id : SubroutineId) : Option Subroutine :=
  u.subroutines.reverse.find? (·.id == id)

end RpgLowering.Source

namespace RpgLowering.Core
open RpgLowering.Source (CompilationUnit DataDefinition DataId Subroutine SubroutineId)
variable {u : CompilationUnit} {p : Program} {s s' : Scope}

theorem lookup_unitScope {id : DataId} {g : GlobalId} :
    (unitScope u).globals.lookup id = some g ↔
      ∃ i d, (firsts (·.id) u.declarations)[i]? = some d ∧ d.id = id ∧ ⟨i⟩ = g :=
  lookup_numbered_eq_some DataDefinition.id GlobalId.mk u.declarations id g

theorem lookup_functions_unitScope {id : SubroutineId} {f : FunctionId} :
    (unitScope u).functions.lookup id = some f ↔
      ∃ i x, (firsts (·.id) u.subroutines)[i]? = some x ∧ x.id = id ∧ ⟨i⟩ = f :=
  lookup_numbered_eq_some Subroutine.id FunctionId.mk u.subroutines id f

/-- Everything declared in one scope is declared alike in the other. -/
structure Scope.Part (s s' : Scope) : Prop where
  unit : s.unit = s'.unit
  globals : ∀ id g, s.globals.lookup id = some g → s'.globals.lookup id = some g

theorem exprOfSource_part (h : s.Part s') {x : Source.Expr} {e : Expr}
    (hx : Expr.ofSource s x = .ok e) : Expr.ofSource s' x = .ok e := by
  induction x generalizing e with
  | int | real | string => exact hx
  | boolean | assign => cases hx
  | data span r =>
    simp only [Expr.ofSource, bind_eq_ok] at hx ⊢
    obtain ⟨g, hg, ⟨⟩⟩ := hx
    obtain ⟨id, hr, hid⟩ := Scope.global_eq_ok.mp hg
    exact ⟨g, Scope.global_eq_ok.mpr ⟨id, hr, h.globals id g hid⟩, rfl⟩
  | binary span op left right ihl ihr =>
    cases op with
    | plus =>
      simp only [Expr.ofSource, bind_eq_ok] at hx ⊢
      obtain ⟨l, hl, r, hr, ⟨⟩⟩ := hx
      exact ⟨l, ihl hl, r, ihr hr, by rw [h.unit]⟩
    | equality =>
      simp only [Expr.ofSource, bind_eq_ok] at hx ⊢
      obtain ⟨l, hl, r, hr, ⟨⟩⟩ := hx
      exact ⟨l, ihl hl, r, ihr hr, rfl⟩
    | _ => cases hx
  | unary span op x ih =>
    cases op with
    | char =>
      simp only [Expr.ofSource, bind_eq_ok] at hx ⊢
      obtain ⟨v, hv, ⟨⟩⟩ := hx
      exact ⟨v, ih hv, rfl⟩
    | _ => cases hx
  | dec span value digits places ih =>
    simp only [Expr.ofSource, bind_eq_ok] at hx ⊢
    obtain ⟨v, hv, ⟨⟩⟩ := hx
    exact ⟨v, ih hv, rfl⟩

theorem scopeOf_part (before after : List DataDefinition) (xs ys : List Subroutine) :
    (scopeOf u before xs).Part (scopeOf u (before ++ after) ys) :=
  ⟨rfl, fun _ _ h => lookup_numbered_append h after⟩

/- A value lowered among the declarations up to its own is lowered alike among all of them. -/
theorem GlobalOf.part (h : s.Part s') {d : DataDefinition} {g : Global}
    (hg : GlobalOf s d g) : GlobalOf s' d g := by
  refine ⟨hg.name, hg.ty, optionMapM_eq_ok.mpr ?_⟩
  have hinitial := optionMapM_eq_ok.mp hg.initial
  generalize d.initial = o, g.initial = o' at hinitial
  cases hinitial with
  | none => exact .none
  | some hv => exact .some (exprOfSource_part h hv)

theorem Globals.forall₂ {ds : List DataDefinition} {gs : List Global} (h : Globals u ds gs)
    (after : List DataDefinition) (xs : List Subroutine) :
    List.Forall₂ (GlobalOf (scopeOf u (ds ++ after) xs)) (firsts (·.id) ds) gs := by
  induction h generalizing after with
  | nil => exact .nil
  | @again ds gs d _ hid ih =>
    rw [firsts_concat, if_pos hid, List.append_assoc]
    exact ih _
  | @first ds gs d g _ hid hg _ ih =>
    have hlast := hg.part (scopeOf_part (ds ++ [d]) after [] xs)
    rw [firsts_concat, if_neg hid]
    apply List.rel_append
    · rw [List.append_assoc]
      exact ih _
    · exact .cons hlast .nil

/-- The globals of the program of a unit are those of the first declarations, with the initial
values lowered in the scope of the whole unit. -/
theorem ProgramOf.forall₂_globals (h : ProgramOf u p) :
    List.Forall₂ (GlobalOf (unitScope u)) (firsts (·.id) u.declarations) p.globals := by
  have hall := h.globals.forall₂ [] u.subroutines
  rwa [List.append_nil] at hall

/-- The declaration that counts for an identity, and the global that it became. -/
theorem Globals.declaration {gs : List Global} (h : Globals u u.declarations gs)
    {xs : List Subroutine} {id : DataId} {g : GlobalId}
    (hg : (scopeOf u u.declarations xs).globals.lookup id = some g) :
    ∃ d x, u.declaration? id = some d ∧ d.id = id ∧ gs[g.index]? = some x ∧ x.name = d.name ∧
      d.ty.toCore = .ok x.ty := by
  obtain ⟨i, d, hd, rfl, rfl⟩ :=
    (lookup_numbered_eq_some DataDefinition.id GlobalId.mk u.declarations id g).mp hg
  obtain ⟨x, hx, hmade⟩ := getElem?_of_forall₂ (h.forall₂ [] xs) hd
  exact ⟨d, x, find?_of_mem_firsts (List.mem_of_getElem? hd), rfl, hx, hmade.name, hmade.ty⟩

theorem ProgramOf.declaration (h : ProgramOf u p) {id : DataId} {g : GlobalId}
    (hg : (unitScope u).globals.lookup id = some g) :
    ∃ d x, u.declaration? id = some d ∧ d.id = id ∧ p.global? g = some x ∧ x.name = d.name ∧
      d.ty.toCore = .ok x.ty :=
  h.globals.declaration hg

/-- The last subroutine of an identity gives the statements of its function. -/
theorem bodySource?_eq_last {i : Nat} {x : Subroutine}
    (hx : (firsts (·.id) u.subroutines)[i]? = some x) :
    bodySource? (unitScope u) u.subroutines ⟨i⟩ = u.lastSubroutine? x.id := by
  have htest : (fun y : Subroutine => (unitScope u).functions.lookup y.id == some ⟨i⟩) =
      fun y => y.id == x.id := by
    funext y
    rw [Bool.eq_iff_iff, beq_iff_eq, beq_iff_eq, lookup_functions_unitScope]
    constructor
    · intro hlookup
      obtain ⟨j, z, hz, hid, ⟨⟩⟩ := hlookup
      obtain rfl : z = x := Option.some.inj (hz.symm.trans hx)
      exact hid.symm
    · intro hid
      exact ⟨i, x, hx, hid.symm, rfl⟩
  rw [bodySource?, htest]
  rfl

theorem lastSubroutine?_of_nodup (hids : (u.subroutines.map (·.id)).Nodup) (id : SubroutineId) :
    u.lastSubroutine? id = u.subroutine? id :=
  (find?_perm u.subroutines.reverse_perm.symm hids id).symm

/-- The function that is named after one subroutine and has the statements of another. -/
structure FunctionOf (s : Scope) (named filled : Subroutine) (f : Function) : Prop where
  name : f.name = named.name
  parameters : f.parameters = []
  body : Stmt.ofSources s filled.stmts = .ok f.body

theorem ProgramOf.functionOf (h : ProgramOf u p) {i : Nat} {x : Subroutine}
    (hx : (firsts (·.id) u.subroutines)[i]? = some x) : ∃ last f,
      u.lastSubroutine? x.id = some last ∧ p.functions[i]? = some f ∧
      FunctionOf (unitScope u) x last f := by
  have hrel := h.functions i
  rw [hx] at hrel
  generalize p.functions[i]? = o at hrel
  cases hrel with
  | @some _ f hfilled =>
    rw [Filled, bodySource?_eq_last hx] at hfilled
    cases hlast : u.lastSubroutine? x.id with
    | none =>
      have hmem : x ∈ u.subroutines :=
        List.mem_of_find?_eq_some (find?_of_mem_firsts (List.mem_of_getElem? hx))
      have hno := List.find?_eq_none.mp hlast x (List.mem_reverse.mpr hmem)
      simp at hno
    | some last =>
      simp only [hlast] at hfilled
      obtain ⟨body, hbody, rfl⟩ := hfilled
      exact ⟨last, _, rfl, rfl, rfl, rfl, hbody⟩

/-- The functions of the program of a unit, one for every first subroutine. -/
theorem ProgramOf.forall₂_functions (h : ProgramOf u p) :
    List.Forall₂ (fun x f => ∃ last, u.subroutine? x.id = some x ∧
        u.lastSubroutine? x.id = some last ∧ FunctionOf (unitScope u) x last f)
      (firsts (·.id) u.subroutines) p.functions := by
  apply forall₂_of_getElem?
  intro i
  cases hx : (firsts (·.id) u.subroutines)[i]? with
  | none =>
    have hrel := h.functions i
    rw [hx] at hrel
    generalize p.functions[i]? = o at hrel
    cases hrel
    exact .none
  | some x =>
    obtain ⟨last, f, hlast, hf, hfunction⟩ := h.functionOf hx
    rw [hf]
    exact .some ⟨last, find?_of_mem_firsts (List.mem_of_getElem? hx), hlast, hfunction⟩

end RpgLowering.Core
