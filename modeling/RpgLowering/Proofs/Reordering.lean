import RpgLowering.Proofs.ClassMembers
import RpgLowering.Proofs.Emission
import RpgLowering.Proofs.Identities
import Mathlib.Data.List.Perm.Basic

/-! The order of declarations does not matter. In another order every index of the program is
another one, but an index is found by identity and stands for a name, so the two programs of a unit
and its reordering have classes with the same members. -/
namespace RpgLowering.Source
variable {u v : CompilationUnit}

/-- The unit with its declarations in another order, each kind of them among itself. -/
structure CompilationUnit.Reordered (u v : CompilationUnit) : Prop where
  data : u.data.Perm v.data
  inStatement : u.inStatement.Perm v.inStatement
  subroutines : u.subroutines.Perm v.subroutines
  main : u.main = v.main
  entry : u.entry = v.entry

/-- No declaration needs another one: identities are distinct, and initial values do not refer to
data. -/
structure CompilationUnit.Independent (u : CompilationUnit) : Prop where
  data : (u.declarations.map (·.id)).Nodup
  subroutines : (u.subroutines.map (·.id)).Nodup
  initials : ∀ d ∈ u.data, ∀ e ∈ d.initial, e.references = []

theorem CompilationUnit.Reordered.symm (h : u.Reordered v) : v.Reordered u where
  data := h.data.symm
  inStatement := h.inStatement.symm
  subroutines := h.subroutines.symm
  main := h.main.symm
  entry := h.entry.symm

theorem CompilationUnit.Reordered.declarations (h : u.Reordered v) :
    u.declarations.Perm v.declarations :=
  h.data.append (h.inStatement.map _)

theorem CompilationUnit.Independent.reordered (hu : u.Independent) (h : u.Reordered v) :
    v.Independent where
  data := (h.declarations.map _).nodup_iff.mp hu.data
  subroutines := (h.subroutines.map _).nodup_iff.mp hu.subroutines
  initials d hd := hu.initials d (h.data.mem_iff.mpr hd)

theorem CompilationUnit.Independent.initial (hu : u.Independent) {d : DataDefinition}
    (hd : d ∈ u.declarations) : ∀ e ∈ d.initial, e.references = [] := by
  rcases List.mem_append.mp hd with hd | hd
  · exact hu.initials d hd
  · obtain ⟨x, -, rfl⟩ := List.mem_map.mp hd
    exact nofun

theorem CompilationUnit.Reordered.declaration? (h : u.Reordered v) (hu : u.Independent)
    (id : DataId) : u.declaration? id = v.declaration? id :=
  find?_perm h.declarations hu.data id

theorem CompilationUnit.Reordered.subroutine? (h : u.Reordered v) (hu : u.Independent)
    (id : SubroutineId) : u.subroutine? id = v.subroutine? id :=
  find?_perm h.subroutines hu.subroutines id

/-- A type is asked of the declarations by identity only. -/
theorem Expr.staticType_congr (h : ∀ id, u.declaration? id = v.declaration? id) (e : Expr) :
    e.staticType u = e.staticType v := by
  induction e with
  | int | real | string | boolean | unary | assign | dec => rfl
  | data span r => rw [Expr.staticType, Expr.staticType, CompilationUnit.typeOf,
      CompilationUnit.typeOf, funext h]
  | binary span op left right ihl ihr =>
    cases op with
    | plus => rw [Expr.staticType, Expr.staticType, ihl, ihr]
    | minus => exact ihl
    | _ => rfl

theorem Expr.Supported.of_references {declared declared' : DataId → Prop} {e : Expr}
    (h : e.Supported declared) (hr : e.references = []) : e.Supported declared' := by
  induction h with
  | int => exact .int
  | real => exact .real
  | string => exact .string
  | data => cases hr
  | plus _ _ ihl ihr =>
    obtain ⟨hl, hr⟩ := List.append_eq_nil_iff.mp hr
    exact .plus (ihl hl) (ihr hr)
  | equality _ _ ihl ihr =>
    obtain ⟨hl, hr⟩ := List.append_eq_nil_iff.mp hr
    exact .equality (ihl hl) (ihr hr)
  | char _ ih => exact .char (ih hr)
  | dec _ ih => exact .dec (ih hr)

end RpgLowering.Source

namespace RpgLowering.Core
open RpgLowering.Source (CompilationUnit DataDefinition DataId Reference Subroutine SubroutineId)
variable {u v : CompilationUnit} {name : String}

/- Each phase succeeds or fails for both units, as what has to be declared is the same. -/
theorem exists_ofSource_reordered (hu : u.Independent) (h : u.Reordered v)
    (hp : ∃ p, Program.ofSource name u = .ok p) : ∃ q, Program.ofSource name v = .ok q := by
  have hv := hu.reordered h
  have hd : ∀ w : CompilationUnit, ∀ id, ((unitScope w).globals.lookup id).isSome ↔ w.Declares id :=
    fun w => isSome_lookup_globals _ _
  have hc : ∀ w : CompilationUnit, ∀ id, ((unitScope w).functions.lookup id).isSome ↔ w.Lists id :=
    fun w => isSome_lookup_functions _ _
  have hdeclares : u.Declares = v.Declares :=
    funext fun id => propext (h.declarations.map _).mem_iff
  have hlists : u.Lists = v.Lists := funext fun id => propext (h.subroutines.map _).mem_iff
  have hreferences : entryReferences u = entryReferences v := by
    rw [entryReferences, h.entry, entryReferences]
  simp only [exists_ofSource, exists_globals, firsts_eq_self _ _ hu.data,
    firsts_eq_self _ _ hu.subroutines, firsts_eq_self _ _ hv.data,
    firsts_eq_self _ _ hv.subroutines, exists_global (hd u), exists_global (hd v),
    exists_stmtsOfSource (hd u) (hc u), exists_stmtsOfSource (hd v) (hc v), hdeclares, hlists,
    hreferences, h.main] at hp ⊢
  obtain ⟨⟨htypes, hnames, hinitials⟩, hfunctions, hentry, hmain, hbodies⟩ := hp
  refine ⟨⟨?_, ?_, ?_⟩, ?_, hentry, hmain, ?_⟩
  · intro d hd
    exact htypes d (h.declarations.mem_iff.mpr hd)
  · exact (h.declarations.map _).nodup_iff.mp hnames
  · intro before d after hsplit _ e he
    have hmem : d ∈ u.declarations := by
      rw [h.declarations.mem_iff, hsplit]
      exact List.mem_append_right _ List.mem_cons_self
    -- its place in the other order is another one, but it refers to nothing
    rw [← firsts_eq_self _ _ hu.data] at hmem
    obtain ⟨before', after', hsplit', hid'⟩ := mem_firsts.mp hmem
    have hsupported := hinitials before' d after' hsplit' hid' e he
    rw [firsts_eq_self _ _ hu.data] at hmem
    exact hsupported.of_references (hu.initial hmem e he)
  · exact (h.subroutines.map _).nodup_iff.mp hfunctions
  · intro x hx
    exact hbodies x (h.subroutines.mem_iff.mpr hx)

end RpgLowering.Core

namespace RpgLowering.Target
open RpgLowering.Core (FunctionId FunctionOf GlobalId GlobalOf Program ProgramOf Scope
  entryReferences isText parameterOf targetOf unitScope)
open RpgLowering.Source (CompilationUnit DataDefinition DataId Reference Subroutine SubroutineId)
variable {s s' : Scope} {p q : Program}

/-- Two globals with one name and type. -/
def SameGlobal (p q : Program) (g g' : GlobalId) : Prop :=
  ∃ x y, p.global? g = some x ∧ q.global? g' = some y ∧ x.name = y.name ∧ x.ty = y.ty

/-- Two functions with one name. -/
def SameFunction (p q : Program) (f f' : FunctionId) : Prop :=
  ∃ x y, p.function? f = some x ∧ q.function? f' = some y ∧ x.name = y.name

theorem SameGlobal.fieldOf {g g' : GlobalId} (h : SameGlobal p q g g') :
    fieldOf p g = fieldOf q g' := by
  obtain ⟨x, y, hx, hy, hname, -⟩ := h
  simp only [Target.fieldOf, hx, hy, hname]

theorem SameGlobal.typeOf? {g g' : GlobalId} (h : SameGlobal p q g g') :
    p.typeOf? g = q.typeOf? g' := by
  obtain ⟨x, y, hx, hy, -, hty⟩ := h
  rw [Program.typeOf?, Program.typeOf?, hx, hy, Option.map_some, Option.map_some, hty]

/-- What an identity stands for in one scope and program, it stands for in the others. -/
structure Alike (s s' : Scope) (p q : Program) : Prop where
  text : isText s.unit = isText s'.unit
  globals : ∀ id g, s.globals.lookup id = some g →
    ∃ g', s'.globals.lookup id = some g' ∧ SameGlobal p q g g'
  functions : ∀ id f, s.functions.lookup id = some f →
    ∃ f', s'.functions.lookup id = some f' ∧ SameFunction p q f f'

theorem Alike.global (h : Alike s s' p q) {r : Reference DataId} {span : Option Span} {g : GlobalId}
    (hg : s.global r span = .ok g) : ∃ g', s'.global r span = .ok g' ∧ SameGlobal p q g g' := by
  obtain ⟨id, hr, hid⟩ := Scope.global_eq_ok.mp hg
  obtain ⟨g', hid', hsame⟩ := h.globals id g hid
  exact ⟨g', Scope.global_eq_ok.mpr ⟨id, hr, hid'⟩, hsame⟩

theorem Alike.function (h : Alike s s' p q) {r : Reference SubroutineId} {span : Option Span}
    {f : FunctionId} (hf : s.function r span = .ok f) :
    ∃ f', s'.function r span = .ok f' ∧ SameFunction p q f f' := by
  obtain ⟨id, hr, hid⟩ := Scope.function_eq_ok.mp hf
  obtain ⟨f', hid', hsame⟩ := h.functions id f hid
  exact ⟨f', Scope.function_eq_ok.mpr ⟨id, hr, hid'⟩, hsame⟩

theorem Alike.target (h : Alike s s' p q) {x : Source.Expr} {g : GlobalId}
    (hg : targetOf s x = .ok g) : ∃ g', targetOf s' x = .ok g' ∧ SameGlobal p q g g' := by
  cases x with
  | data span r => exact h.global hg
  | _ => cases hg

/-- Two expressions of one type that become the same expression of the class. -/
structure SameExpr (p q : Program) (e e' : Core.Expr) : Prop where
  ty : e.ty? p = e'.ty? q
  target : Expr.ofCore p e = Expr.ofCore q e'

theorem Alike.expr (h : Alike s s' p q) {x : Source.Expr} {e : Core.Expr}
    (hx : Core.Expr.ofSource s x = .ok e) :
    ∃ e', Core.Expr.ofSource s' x = .ok e' ∧ SameExpr p q e e' := by
  induction x generalizing e with
  | int | real | string =>
    cases hx
    exact ⟨_, rfl, rfl, rfl⟩
  | boolean | assign => cases hx
  | data span r =>
    simp only [Core.Expr.ofSource, bind_eq_ok] at hx ⊢
    obtain ⟨g, hg, ⟨⟩⟩ := hx
    obtain ⟨g', hg', hsame⟩ := h.global hg
    exact ⟨_, ⟨g', hg', rfl⟩, hsame.typeOf?, hsame.fieldOf⟩
  | binary span op left right ihl ihr =>
    cases op with
    | plus =>
      simp only [Core.Expr.ofSource, bind_eq_ok] at hx ⊢
      obtain ⟨l, hl, r, hr, ⟨⟩⟩ := hx
      obtain ⟨l', hl', hsamel⟩ := ihl hl
      obtain ⟨r', hr', hsamer⟩ := ihr hr
      refine ⟨_, ⟨l', hl', r', hr', rfl⟩, ?_⟩
      rw [h.text]
      by_cases htext : isText s'.unit left = true
      · rw [if_pos htext, if_pos htext]
        refine ⟨rfl, ?_⟩
        rw [Expr.ofCore, Expr.ofCore, hsamel.target, hsamer.target]
      · rw [if_neg htext, if_neg htext]
        refine ⟨?_, ?_⟩
        · rw [Core.Expr.ty?, Core.Expr.ty?, hsamel.ty, hsamer.ty]
        · rw [Expr.ofCore, Expr.ofCore, hsamel.target, hsamer.target]
    | equality =>
      simp only [Core.Expr.ofSource, bind_eq_ok] at hx ⊢
      obtain ⟨l, hl, r, hr, ⟨⟩⟩ := hx
      obtain ⟨l', hl', hsamel⟩ := ihl hl
      obtain ⟨r', hr', hsamer⟩ := ihr hr
      refine ⟨_, ⟨l', hl', r', hr', rfl⟩, rfl, ?_⟩
      -- which comparison is written depends on the types of the operands
      simp only [Expr.ofCore, equalsTest, hsamel.target, hsamer.target, hsamel.ty, hsamer.ty]
    | _ => cases hx
  | unary span op x ih =>
    cases op with
    | char =>
      simp only [Core.Expr.ofSource, bind_eq_ok] at hx ⊢
      obtain ⟨a, ha, ⟨⟩⟩ := hx
      obtain ⟨a', ha', hsame⟩ := ih ha
      refine ⟨_, ⟨a', ha', rfl⟩, rfl, ?_⟩
      rw [Expr.ofCore, Expr.ofCore, hsame.target]
    | _ => cases hx
  | dec span value digits places ih =>
    simp only [Core.Expr.ofSource, bind_eq_ok] at hx ⊢
    obtain ⟨a, ha, ⟨⟩⟩ := hx
    obtain ⟨a', ha', hsame⟩ := ih ha
    refine ⟨_, ⟨a', ha', rfl⟩, rfl, ?_⟩
    rw [Expr.ofCore, Expr.ofCore, hsame.target]

/- Statements that are dropped on one side are dropped on the other. -/
theorem ofCores_toList_append {o o' : Option Core.Stmt} {ts ts' : List Core.Stmt}
    (h : Option.Rel (fun t t' => Stmt.ofCore p t = Stmt.ofCore q t') o o')
    (hts : Stmt.ofCores p ts = Stmt.ofCores q ts') :
    Stmt.ofCores p (o.toList ++ ts) = Stmt.ofCores q (o'.toList ++ ts') := by
  cases h with
  | none => exact hts
  | some ht =>
    rw [Option.toList_some, Option.toList_some, List.singleton_append, List.singleton_append,
      Stmt.ofCores, Stmt.ofCores, ht, hts]

mutual

theorem Alike.stmt (h : Alike s s' p q) (t : Source.Stmt) {o : Option Core.Stmt}
    (ht : Core.Stmt.ofSource s t = .ok o) : ∃ o', Core.Stmt.ofSource s' t = .ok o' ∧
      Option.Rel (fun t t' => Stmt.ofCore p t = Stmt.ofCore q t') o o' := by
  cases t with
  | plist | set =>
    cases ht
    exact ⟨none, rfl, .none⟩
  | eval span target value =>
    simp only [Core.Stmt.ofSource, bind_eq_ok] at ht ⊢
    obtain ⟨g, hg, e, he, ⟨⟩⟩ := ht
    obtain ⟨g', hg', hglobal⟩ := h.target hg
    obtain ⟨e', he', hexpr⟩ := h.expr he
    refine ⟨_, ⟨g', hg', e', he', rfl⟩, .some ?_⟩
    rw [Stmt.ofCore, Stmt.ofCore, hglobal.fieldOf, hexpr.target]
  | execute span r =>
    simp only [Core.Stmt.ofSource, bind_eq_ok] at ht ⊢
    obtain ⟨f, hf, ⟨⟩⟩ := ht
    obtain ⟨f', hf', x, y, hx, hy, hname⟩ := h.function hf
    refine ⟨_, ⟨f', hf', rfl⟩, .some ?_⟩
    simp only [Stmt.ofCore, hx, hy, hname]
  | clear span target =>
    simp only [Core.Stmt.ofSource, bind_eq_ok] at ht ⊢
    obtain ⟨g, hg, ⟨⟩⟩ := ht
    obtain ⟨g', hg', hglobal⟩ := h.target hg
    have hzero : ∀ t : Core.Ty, Expr.ofCore p t.zero = Expr.ofCore q t.zero := by
      intro t
      cases t <;> rfl
    refine ⟨_, ⟨g', hg', rfl⟩, .some ?_⟩
    simp only [Stmt.ofCore, hglobal.typeOf?, hglobal.fieldOf, hzero]
  | display span factor response =>
    cases response with
    | none => cases ht
    | some x =>
      simp only [Core.Stmt.ofSource, bind_eq_ok] at ht ⊢
      obtain ⟨e, he, ⟨⟩⟩ := ht
      obtain ⟨e', he', hexpr⟩ := h.expr he
      refine ⟨_, ⟨e', he', rfl⟩, .some ?_⟩
      rw [Stmt.ofCore, Stmt.ofCore, hexpr.target]
  | select span cases other =>
    simp only [Core.Stmt.ofSource, bind_eq_ok] at ht ⊢
    obtain ⟨cs, hcs, o, ho, ⟨⟩⟩ := ht
    obtain ⟨cs', hcs', hcases⟩ := h.cases cases hcs
    obtain ⟨o', ho', hother⟩ := h.other other ho
    refine ⟨_, ⟨cs', hcs', o', ho', rfl⟩, .some ?_⟩
    rw [Stmt.ofCore, Stmt.ofCore, hcases, hother]
  | loop span init limit step down body =>
    simp only [Core.Stmt.ofSource, bind_eq_ok] at ht ⊢
    obtain ⟨start, hstart, g, hg, low, hlow, high, hhigh, b, hb, ⟨⟩⟩ := ht
    obtain ⟨g', hg', hglobal⟩ := h.target hg
    obtain ⟨low', hlow', hsamelow⟩ := h.expr hlow
    obtain ⟨high', hhigh', hsamehigh⟩ := h.expr hhigh
    obtain ⟨b', hb', hbody⟩ := h.stmts body hb
    refine ⟨_, ⟨start, hstart, g', hg', low', hlow', high', hhigh', b', hb', rfl⟩, .some ?_⟩
    rw [Stmt.ofCore, Stmt.ofCore, hglobal.fieldOf, hsamelow.target, hsamehigh.target, hbody]
  | _ => cases ht

theorem Alike.stmts (h : Alike s s' p q) (ts : List Source.Stmt) {b : List Core.Stmt}
    (hb : Core.Stmt.ofSources s ts = .ok b) : ∃ b', Core.Stmt.ofSources s' ts = .ok b' ∧
      Stmt.ofCores p b = Stmt.ofCores q b' := by
  cases ts with
  | nil =>
    cases hb
    exact ⟨[], rfl, rfl⟩
  | cons t ts =>
    simp only [Core.Stmt.ofSources, bind_eq_ok] at hb ⊢
    obtain ⟨o, ho, rest, hrest, ⟨⟩⟩ := hb
    obtain ⟨o', ho', hfirst⟩ := h.stmt t ho
    obtain ⟨rest', hrest', htail⟩ := h.stmts ts hrest
    exact ⟨_, ⟨o', ho', rest', hrest', rfl⟩, ofCores_toList_append hfirst htail⟩

theorem Alike.cases (h : Alike s s' p q) (cases : List (Source.Expr × List Source.Stmt))
    {cs : List (Core.Expr × List Core.Stmt)} (hcs : Core.Stmt.ofCases s cases = .ok cs) :
    ∃ cs', Core.Stmt.ofCases s' cases = .ok cs' ∧ Stmt.ofCases p cs = Stmt.ofCases q cs' := by
  match cases with
  | [] =>
    cases hcs
    exact ⟨[], rfl, rfl⟩
  | (condition, body) :: cases =>
    simp only [Core.Stmt.ofCases, bind_eq_ok] at hcs ⊢
    obtain ⟨e, he, b, hb, rest, hrest, ⟨⟩⟩ := hcs
    obtain ⟨e', he', hexpr⟩ := h.expr he
    obtain ⟨b', hb', hbody⟩ := h.stmts body hb
    obtain ⟨rest', hrest', htail⟩ := h.cases cases hrest
    refine ⟨_, ⟨e', he', b', hb', rest', hrest', rfl⟩, ?_⟩
    rw [Stmt.ofCases, Stmt.ofCases, hexpr.target, hbody, htail]

theorem Alike.other (h : Alike s s' p q) (other : Option (List Source.Stmt))
    {o : Option (List Core.Stmt)} (ho : Core.Stmt.ofOther s other = .ok o) :
    ∃ o', Core.Stmt.ofOther s' other = .ok o' ∧ Stmt.ofDefault p o = Stmt.ofDefault q o' := by
  cases other with
  | none =>
    cases ho
    exact ⟨none, rfl, rfl⟩
  | some body =>
    simp only [Core.Stmt.ofOther, bind_eq_ok] at ho ⊢
    obtain ⟨b, hb, ⟨⟩⟩ := ho
    obtain ⟨b', hb', hbody⟩ := h.stmts body hb
    refine ⟨_, ⟨b', hb', rfl⟩, ?_⟩
    rw [Stmt.ofDefault, Stmt.ofDefault, hbody]

end

section
variable {u v : CompilationUnit}

/-- The programs of a unit and of its reordering have the same names for the same identities. -/
theorem alike_reordered (hu : u.Independent) (h : u.Reordered v) (hp : ProgramOf u p)
    (hq : ProgramOf v q) : Alike (unitScope u) (unitScope v) p q where
  text := by
    funext e
    have htype := e.staticType_congr (h.declaration? hu)
    show isText u e = isText v e
    rw [isText, htype, isText]
  globals id g hg := by
    obtain ⟨d, x, hd, rfl, hx, hname, hty⟩ := hp.declaration hg
    have hmem : d.id ∈ v.declarations.map (·.id) := by
      rw [h.declaration? hu] at hd
      exact List.mem_map_of_mem (List.mem_of_find?_eq_some hd)
    obtain ⟨g', hg'⟩ := Option.isSome_iff_exists.mp
      ((Core.isSome_lookup_globals v.declarations v.subroutines d.id).mpr hmem)
    obtain ⟨d', y, hd', -, hy, hname', hty'⟩ := hq.declaration hg'
    obtain rfl : d = d' := Option.some.inj (hd.symm.trans ((h.declaration? hu _).trans hd'))
    refine ⟨g', hg', x, y, hx, hy, hname.trans hname'.symm, ?_⟩
    exact Except.ok.inj (hty.symm.trans hty')
  functions id f hf := by
    obtain ⟨i, x, hx, rfl, rfl⟩ := Core.lookup_functions_unitScope.mp hf
    obtain ⟨_, k, -, hk, hfunction⟩ := hp.functionOf hx
    have hfind : v.subroutine? x.id = some x := by
      rw [← h.subroutine? hu]
      exact find?_of_mem_firsts (List.mem_of_getElem? hx)
    obtain ⟨f', hf'⟩ := Option.isSome_iff_exists.mp
      ((Core.isSome_lookup_functions v.declarations v.subroutines x.id).mpr
        (List.mem_map_of_mem (List.mem_of_find?_eq_some hfind)))
    obtain ⟨j, y, hy, hid, rfl⟩ := Core.lookup_functions_unitScope.mp hf'
    obtain ⟨_, k', -, hk', hfunction'⟩ := hq.functionOf hy
    have hfind' : v.subroutine? y.id = some y := find?_of_mem_firsts (List.mem_of_getElem? hy)
    obtain rfl : x = y := Option.some.inj (hfind.symm.trans (hid ▸ hfind'))
    exact ⟨_, hf', k, k', hk, hk', hfunction.name.trans hfunction'.name.symm⟩

end

/-- The field that a declaration becomes in the class of a program. -/
def FieldFrom (s : Scope) (p : Program) (d : DataDefinition) (f : Field) : Prop :=
  ∃ g, GlobalOf s d g ∧ Field.ofCore p g = .ok f

/-- The private method that a subroutine becomes in the class of a program. -/
def MethodFrom (s : Scope) (p : Program) (x : Subroutine) (m : Method) : Prop :=
  ∃ f, FunctionOf s x x f ∧ Method.ofFunction p f = .ok m

theorem rightUnique_fieldFrom (s : Scope) (p : Program) : Relator.RightUnique (FieldFrom s p) := by
  intro d f f' hf hf'
  obtain ⟨g, hg, hfield⟩ := hf
  obtain ⟨g', hg', hfield'⟩ := hf'
  have hname : g.name = g'.name := hg.name.trans hg'.name.symm
  have hty : g.ty = g'.ty := Except.ok.inj (hg.ty.symm.trans hg'.ty)
  have hinitial : g.initial = g'.initial := Except.ok.inj (hg.initial.symm.trans hg'.initial)
  rw [Field.ofCore, hname, hty, hinitial] at hfield
  exact Except.ok.inj (hfield.symm.trans hfield')

theorem rightUnique_methodFrom (s : Scope) (p : Program) :
    Relator.RightUnique (MethodFrom s p) := by
  intro x m m' hm hm'
  obtain ⟨f, hf, hmethod⟩ := hm
  obtain ⟨f', hf', hmethod'⟩ := hm'
  have hname : f.name = f'.name := hf.name.trans hf'.name.symm
  have hbody : f.body = f'.body := Except.ok.inj (hf.body.symm.trans hf'.body)
  rw [Method.ofFunction, hname, hbody] at hmethod
  exact Except.ok.inj (hmethod.symm.trans hmethod')

theorem Alike.field (h : Alike s s' p q) {d : DataDefinition} {f : Field}
    (hf : FieldFrom s p d f) : FieldFrom s' q d f := by
  obtain ⟨g, hg, hfield⟩ := hf
  have hinitial := optionMapM_eq_ok.mp hg.initial
  obtain ⟨o, ho, hsame⟩ : ∃ o, Option.Rel (fun x e => Core.Expr.ofSource s' x = .ok e) d.initial o ∧
      g.initial.mapM (Expr.ofCore p) = o.mapM (Expr.ofCore q) := by
    generalize d.initial = i, g.initial = i' at hinitial
    cases hinitial with
    | none => exact ⟨none, .none, rfl⟩
    | some hx =>
      obtain ⟨e, he, hexpr⟩ := h.expr hx
      refine ⟨some e, .some he, ?_⟩
      rw [Option.mapM_some, Option.mapM_some, hexpr.target]
  refine ⟨{ name := g.name, ty := g.ty, initial := o },
    ⟨hg.name, hg.ty, optionMapM_eq_ok.mpr ho⟩, ?_⟩
  rw [← hfield, Field.ofCore, Field.ofCore, hsame]

theorem Alike.method (h : Alike s s' p q) {x : Subroutine} {m : Method}
    (hm : MethodFrom s p x m) : MethodFrom s' q x m := by
  obtain ⟨f, hf, hmethod⟩ := hm
  obtain ⟨b, hb, hbody⟩ := h.stmts x.stmts hf.body
  refine ⟨{ name := f.name, body := b }, ⟨hf.name, rfl, hb⟩, ?_⟩
  rw [← hmethod, Method.ofFunction, Method.ofFunction, hbody]

theorem Alike.parameter (h : Alike s s' p q) {r : Reference DataId} {x : Core.Parameter}
    (hx : parameterOf s p r = .ok x) : parameterOf s' q r = .ok x := by
  obtain ⟨g, y, hg, hy, rfl⟩ := Core.parameterOf_eq_ok.mp hx
  obtain ⟨g', hg', z, w, hz, hw, hname, hty⟩ := h.global hg
  obtain rfl : z = y := Option.some.inj (hz.symm.trans hy)
  refine Core.parameterOf_eq_ok.mpr ⟨g', w, hg', hw, ?_⟩
  rw [hname, hty]

section
variable {u v : CompilationUnit} {name : String}

/-- What the class of a unit consists of, said of the unit. -/
theorem class_ofSource (hu : u.Independent) (h : Program.ofSource name u = .ok p)
    {file : SourceFile} (hfile : SourceFile.ofCore p = .ok file) :
    ∃ fields body methods, file = ⟨[{ name, fields, methods := entryOf p body :: methods }]⟩ ∧
      List.Forall₂ (FieldFrom (unitScope u) p) u.declarations fields ∧
      Stmt.ofCores p p.main.body = .ok body ∧
      List.Forall₂ (MethodFrom (unitScope u) p) u.subroutines methods := by
  have hp := Core.programOf_ofSource h
  obtain ⟨c, hc, rfl⟩ := SourceFile.ofCore_eq_ok.mp hfile
  obtain ⟨fields, body, methods, hfields, hbody, hmethods, rfl⟩ := Class.ofCore_eq_ok.mp hc
  refine ⟨fields, body, methods, ?_, ?_, hbody, ?_⟩
  · rw [Core.name_ofSource h]
  · have hglobals := hp.forall₂_globals
    rw [firsts_eq_self _ _ hu.data] at hglobals
    exact forall₂_comp (fun d g f hg hf => ⟨g, hg, hf⟩) hglobals hfields
  · have hfunctions := hp.forall₂_functions
    rw [firsts_eq_self _ _ hu.subroutines] at hfunctions
    refine forall₂_comp (fun x f m hf hm => ⟨f, ?_, hm⟩) hfunctions hmethods
    obtain ⟨last, hx, hlast, hfunction⟩ := hf
    rw [Core.lastSubroutine?_of_nodup hu.subroutines, hx] at hlast
    cases hlast
    exact hfunction

/-- The entry methods have the same parameters and statements. -/
theorem entryOf_reordered (h : u.Reordered v) (ha : Alike (unitScope u) (unitScope v) p q)
    (hp : ProgramOf u p) (hq : ProgramOf v q) {body body' : List Stmt}
    (hbody : Stmt.ofCores p p.main.body = .ok body)
    (hbody' : Stmt.ofCores q q.main.body = .ok body') : entryOf p body = entryOf q body' := by
  have hparameters : p.main.parameters = q.main.parameters := by
    have hleft := mapM_eq_ok.mpr (hp.parameters.imp fun r x => ha.parameter)
    have hright := mapM_eq_ok.mpr hq.parameters
    rw [entryReferences, h.entry] at hleft
    exact Except.ok.inj (hleft.symm.trans hright)
  obtain ⟨b, hb, hsame⟩ := ha.stmts u.main hp.main
  obtain rfl : b = q.main.body := by
    rw [h.main] at hb
    exact Except.ok.inj (hb.symm.trans hq.main)
  obtain rfl : body = body' := Except.ok.inj (hbody.symm.trans (hsame.trans hbody'))
  rw [entryOf, entryOf, hparameters]

theorem modifiers_of_methodFrom {x : Subroutine} {m : Method} (h : MethodFrom s p x m) :
    m.modifiers = [.priv] := by
  obtain ⟨f, -, hm⟩ := h
  obtain ⟨body, -, rfl⟩ := Method.ofFunction_eq_ok.mp hm
  rfl

theorem exists_class_reordered (hu : u.Independent) (h : u.Reordered v)
    (hfile : ∃ file, (Program.ofSource name u >>= SourceFile.ofCore) = .ok file) :
    ∃ file, (Program.ofSource name v >>= SourceFile.ofCore) = .ok file := by
  obtain ⟨p, hp, -⟩ := exists_bind_eq_ok.mp hfile
  obtain ⟨q, hq⟩ := Core.exists_ofSource_reordered hu h ⟨p, hp⟩
  exact exists_bind_eq_ok.mpr ⟨q, hq, exists_class_ofSource hq⟩

/-- The order of declarations does not matter: where no declaration needs another one, a unit and
its reordering have a class together or not at all, and the two classes have the same name and
entry method, and the same fields and private methods in some order. -/
theorem class_reordered (name : String) (hu : u.Independent) (h : u.Reordered v) :
    ((∃ file, (Program.ofSource name u >>= SourceFile.ofCore) = .ok file) ↔
      ∃ file, (Program.ofSource name v >>= SourceFile.ofCore) = .ok file) ∧
    ∀ file file', (Program.ofSource name u >>= SourceFile.ofCore) = .ok file →
      (Program.ofSource name v >>= SourceFile.ofCore) = .ok file' →
      ∃ entry fields fields' methods methods',
        file = ⟨[{ name, fields, methods := entry :: methods }]⟩ ∧
        file' = ⟨[{ name, fields := fields', methods := entry :: methods' }]⟩ ∧
        entry.modifiers = [.pub] ∧ (∀ m ∈ methods, m.modifiers = [.priv]) ∧
        fields.Perm fields' ∧ methods.Perm methods' := by
  have hv := hu.reordered h
  constructor
  · exact ⟨exists_class_reordered hu h, exists_class_reordered hv h.symm⟩
  · intro file file' hfile hfile'
    obtain ⟨p, hp, hfile⟩ := bind_eq_ok.mp hfile
    obtain ⟨q, hq, hfile'⟩ := bind_eq_ok.mp hfile'
    have hpu := Core.programOf_ofSource hp
    have hqv := Core.programOf_ofSource hq
    have ha := alike_reordered hu h hpu hqv
    obtain ⟨fields, body, methods, rfl, hfields, hbody, hmethods⟩ := class_ofSource hu hp hfile
    obtain ⟨fields', body', methods', rfl, hfields', hbody', hmethods'⟩ :=
      class_ofSource hv hq hfile'
    have hentry := entryOf_reordered h ha hpu hqv hbody hbody'
    refine ⟨entryOf q body', fields, fields', methods, methods', by rw [hentry], rfl, rfl,
      ?_, ?_, ?_⟩
    · intro m hm
      obtain ⟨x, -, hx⟩ := exists_of_forall₂_right hmethods hm
      exact modifiers_of_methodFrom hx
    · apply List.rel_perm_imp (rightUnique_fieldFrom (unitScope v) q) _ hfields' h.declarations
      exact hfields.imp fun d f => ha.field
    · apply List.rel_perm_imp (rightUnique_methodFrom (unitScope v) q) _ hmethods' h.subroutines
      exact hmethods.imp fun x m => ha.method

/-- Two items of data, and two subroutines of which the first calls the second. -/
def pair : CompilationUnit :=
  { data := [
      { id := ⟨1⟩, name := "A", ty := .number 5 0, initial := some (.int none 7) },
      { id := ⟨2⟩, name := "B", ty := .string 3 false }]
    subroutines := [
      { id := ⟨1⟩, name := "FIRST", stmts := [.execute none ⟨"SECOND", some ⟨2⟩⟩] },
      { id := ⟨2⟩, name := "SECOND", stmts := [.display none none
        (some (.binary none .plus (.data none ⟨"B", some ⟨2⟩⟩) (.string none "x")))] }]
    main := [.execute none ⟨"FIRST", some ⟨1⟩⟩, .clear none (.data none ⟨"A", some ⟨1⟩⟩)] }

def pairBackwards : CompilationUnit :=
  { pair with data := pair.data.reverse, subroutines := pair.subroutines.reverse }

theorem class_pairBackwards : pair.Independent ∧ pair.Reordered pairBackwards ∧
    ∃ file file', (Program.ofSource "Pair" pair >>= SourceFile.ofCore) = .ok file ∧
      (Program.ofSource "Pair" pairBackwards >>= SourceFile.ofCore) = .ok file' ∧
      ∃ entry fields fields' methods methods',
        file = ⟨[{ name := "Pair", fields, methods := entry :: methods }]⟩ ∧
        file' = ⟨[{ name := "Pair", fields := fields', methods := entry :: methods' }]⟩ ∧
        entry.modifiers = [.pub] ∧ (∀ m ∈ methods, m.modifiers = [.priv]) ∧
        fields.Perm fields' ∧ methods.Perm methods' := by
  have hpair : pair.Independent := by
    refine ⟨by decide, by decide, ?_⟩
    simp [pair, Source.Expr.references]
  have horder : pair.Reordered pairBackwards :=
    ⟨(List.reverse_perm _).symm, .refl _, (List.reverse_perm _).symm, rfl, rfl⟩
  refine ⟨hpair, horder, _, _, rfl, rfl, ?_⟩
  exact (class_reordered "Pair" hpair horder).2 _ _ rfl rfl

end

end RpgLowering.Target
