import RpgLowering.Proofs.FailurePositions

/-! When lowering ends without a program and without a failure to report. Only a type that has to be
shown can do that, so an array is needed, and a number in it with more digits than can be counted. -/
namespace RpgLowering

/-- The digits of the number in the type add up to 2^32 or more. -/
inductive Source.Ty.TooWide : Source.Ty → Prop where
  | number {entire decimals : UInt32} : 0x100000000 ≤ entire.toNat + decimals.toNat →
      TooWide (.number entire decimals)
  | array {element : Source.Ty} {count : UInt32} : TooWide element → TooWide (.array element count)

theorem Source.PointsTo.ne_aborted {u : CompilationUnit} {ns : List Node} {f : Failure}
    {limit : Limit} (h : PointsTo u ns f) : f ≠ .aborted limit := by
  intro hf
  subst hf
  have hreported := h.isReported
  simp [Failure.isUnsupported, Failure.isUnresolved] at hreported

namespace Core
open RpgLowering.Source (CompilationUnit DataDefinition DataId Reference Subroutine SubroutineId)
variable {u : CompilationUnit} {p : Program} {limit : Limit}

theorem text_eq_error {t : Source.Ty} {f : Failure} :
    t.text = .error f ↔ f = .aborted .digitCount ∧ t.TooWide := by
  constructor
  · intro h
    refine ⟨text_failsOnly t f h, ?_⟩
    induction t with
    | number entire decimals =>
      apply Source.Ty.TooWide.number
      by_contra hfits
      dsimp only [Source.Ty.text] at h
      rw [if_pos (Nat.lt_of_not_le hfits)] at h
      cases h
    | array element count ih =>
      rcases bind_eq_error.mp h with helement | hrest
      · exact .array (ih helement)
      · obtain ⟨text, -, hok⟩ := hrest
        cases hok
    | _ => cases h
  · intro h
    obtain ⟨rfl, hwide⟩ := h
    induction hwide with
    | number hdigits => exact if_neg (Nat.not_lt.mpr hdigits)
    | array _ ih => exact bind_eq_error.mpr (.inl ih)

/-- Of the types without a lowering only an array is shown with digits. -/
theorem toCore_aborts {t : Source.Ty} :
    t.toCore = .error (.aborted limit) ↔
      limit = .digitCount ∧ ∃ element count, t = .array element count ∧ element.TooWide := by
  constructor
  · intro h
    cases t with
    | string | number => cases h
    | array element count =>
      rcases bind_eq_error.mp h with htext | hrest
      · obtain ⟨hlimit, hwide⟩ := text_eq_error.mp htext
        cases hwide with
        | array hwide => exact ⟨Failure.aborted.inj hlimit, element, count, rfl, hwide⟩
      · obtain ⟨text, -, hok⟩ := hrest
        cases hok
    | _ => cases h
  · intro h
    obtain ⟨rfl, element, count, rfl, hwide⟩ := h
    exact bind_eq_error.mpr (.inl (text_eq_error.mpr ⟨rfl, .array hwide⟩))

theorem located_aborts {α : Type} {span : Option Span} {x : Except Failure α} :
    located span x = .error (.aborted limit) ↔ x = .error (.aborted limit) := by
  cases x with
  | ok a => simp [located]
  | error f => cases f <;> simp [located, Failure.orAt]

theorem declareGlobalOf_aborts {s : Scope} {d : DataDefinition} :
    declareGlobalOf s p d = .error (.aborted limit) ↔ d.ty.toCore = .error (.aborted limit) := by
  constructor
  · intro h
    rcases bind_eq_error.mp h with htype | hrest
    · exact located_aborts.mp htype
    · obtain ⟨t, -, hrest⟩ := hrest
      rcases bind_eq_error.mp hrest with hname | hrest
      · obtain ⟨-, hshape⟩ := declareGlobal_failsOnly p _ _ (located_aborts.mp hname)
        cases hshape
      · obtain ⟨r, -, hok⟩ := hrest
        cases hok
  · intro h
    exact bind_eq_error.mpr (.inl (located_aborts.mpr h))

theorem declareData_aborts {before : List DataDefinition} {d : DataDefinition} :
    declareData (scopeOf u before []) p d = .error (.aborted limit) ↔
      d.id ∉ before.map (·.id) ∧ d.ty.toCore = .error (.aborted limit) := by
  rw [← isSome_lookup_globals (u := u) before [], declareData]
  by_cases hseen : ((scopeOf u before []).globals.lookup d.id).isSome
  · rw [if_pos hseen]
    simp [hseen]
  · rw [if_neg hseen, and_iff_right hseen, ← declareGlobalOf_aborts]
    constructor
    · intro h
      rcases bind_eq_error.mp h with hglobal | hrest
      · exact hglobal
      · -- an initial value can fail, but it does not abort
        obtain ⟨r, hr, hrest⟩ := hrest
        cases hinitial : d.initial with
        | none =>
          rw [hinitial] at hrest
          cases hrest
        | some e =>
          simp only [hinitial] at hrest
          rcases bind_eq_error.mp hrest with hvalue | hrest
          · exact absurd rfl (expr_failsOnly u r.2.1 e _ hvalue).ne_aborted
          · obtain ⟨value, -, hrest⟩ := hrest
            split at hrest <;> cases hrest
    · intro h
      exact bind_eq_error.mpr (.inl h)

/-- The declarations abort at one whose type is too wide, if they get that far. -/
theorem declareAllData_aborts {before ds : List DataDefinition}
    (hg : Globals u before p.globals) :
    declareAllData (scopeOf u before []) p ds = .error (.aborted limit) ↔
      ∃ between d after, ds = between ++ d :: after ∧
        (∀ front e back, between = front ++ e :: back → Declarable u (before ++ front) e) ∧
        d.id ∉ (before ++ between).map (·.id) ∧ d.ty.toCore = .error (.aborted limit) := by
  induction ds generalizing before p with
  | nil => simp [declareAllData]
  | cons d ds ih =>
    rw [declareAllData, bind_eq_error, declareData_aborts]
    constructor
    · intro h
      rcases h with hd | hrest
      · exact ⟨[], d, ds, rfl, by simp, by simpa using hd⟩
      · obtain ⟨r, hr, hrest⟩ := hrest
        have hdeclarable : Declarable u before d := (exists_declareData hg.names).mp ⟨r, hr⟩
        obtain ⟨gs, hgs, rfl⟩ := declareData_globals hg hr
        obtain ⟨between, e, after, rfl, hall, habort⟩ :=
          (ih (p := { p with globals := gs }) hgs).mp hrest
        refine ⟨d :: between, e, after, rfl, ?_, by simpa using habort⟩
        rw [forall_split_cons (P := fun front e => Declarable u (before ++ front) e)]
        exact ⟨by simpa using hdeclarable, by simpa using hall⟩
    · intro h
      obtain ⟨between, e, after, hsplit, hall, habort⟩ := h
      cases between with
      | nil =>
        cases hsplit
        exact .inl (by simpa using habort)
      | cons d' between =>
        cases hsplit
        rw [forall_split_cons (P := fun front e => Declarable u (before ++ front) e)] at hall
        obtain ⟨hdeclarable, hall⟩ := hall
        obtain ⟨r, hr⟩ := (exists_declareData hg.names).mpr (by simpa using hdeclarable)
        refine .inr ⟨r, hr, ?_⟩
        obtain ⟨gs, hgs, rfl⟩ := declareData_globals hg hr
        refine (ih (p := { p with globals := gs }) hgs).mpr ⟨between, e, after, rfl, ?_, ?_⟩
        · simpa using hall
        · simpa using habort

theorem declareUnit_aborts {name : String} :
    declareUnit name u = .error (.aborted limit) ↔
      declareAllData (scopeOf u [] []) (Program.new name) u.declarations =
        .error (.aborted limit) := by
  constructor
  · intro h
    rcases bind_eq_error.mp h with hdata | hrest
    · exact hdata
    · obtain ⟨r, hr, hrest⟩ := hrest
      rw [(declareAllData_result hr).1] at hrest
      exact absurd rfl (declareAllSubroutines_failsOnly rfl rfl _ hrest).ne_aborted
  · intro h
    exact bind_eq_error.mpr (.inl h)

/-- Statements are lowered or fail; they do not abort. -/
theorem ofSource_aborts {name : String} :
    Program.ofSource name u = .error (.aborted limit) ↔
      declareUnit name u = .error (.aborted limit) := by
  rw [ofSource_eq_bind]
  constructor
  · intro h
    rcases bind_eq_error.mp h with hdeclare | hrest
    · exact hdeclare
    · obtain ⟨r, hr, hrest⟩ := hrest
      obtain ⟨gs, hgs, rfl⟩ := declareUnit_result hr
      rcases bind_eq_error.mp hrest with hmain | hrest
      · rcases withMain_failsOnly hgs _ hmain with hentry | hpoints
        · obtain ⟨r, -, hunresolved, -⟩ := hentry
          cases hunresolved
        · exact absurd rfl hpoints.ne_aborted
      · obtain ⟨p, hp, hbodies⟩ := hrest
        exact absurd rfl (bodies_failsOnly hp _ hbodies).ne_aborted
  · intro h
    exact bind_eq_error.mpr (.inl h)

/-- Lowering ends in a program or in a failure to report, but for one kind of unit: its declarations
can be declared up to a new one that is an array of numbers with 2^32 digits or more. -/
theorem aborts_iff_wide_array (name : String) (u : CompilationUnit) (limit : Limit) :
    Program.ofSource name u = .error (.aborted limit) ↔ limit = .digitCount ∧
      ∃ before d after element count, u.declarations = before ++ d :: after ∧
        (∀ front e back, before = front ++ e :: back → Declarable u front e) ∧
        d.id ∉ before.map (·.id) ∧ d.ty = .array element count ∧ element.TooWide := by
  have hnone : Globals u [] (Program.new name).globals := .nil
  rw [ofSource_aborts, declareUnit_aborts, declareAllData_aborts hnone]
  simp only [List.nil_append, toCore_aborts]
  constructor
  · intro h
    obtain ⟨before, d, after, hu, hall, hnew, hlimit, element, count, hty, hwide⟩ := h
    exact ⟨hlimit, before, d, after, element, count, hu, hall, hnew, hty, hwide⟩
  · intro h
    obtain ⟨hlimit, before, d, after, element, count, hu, hall, hnew, hty, hwide⟩ := h
    exact ⟨before, d, after, hu, hall, hnew, hlimit, element, count, hty, hwide⟩

/-- An array of two numbers with 2^32 digits each. -/
def wideArray : CompilationUnit :=
  { data := [{ id := ⟨1⟩, name := "A", ty := .array (.number 4294967295 1) 2 }] }

theorem ofSource_wideArray : Program.ofSource "Test" wideArray = .error (.aborted .digitCount) :=
  rfl

end Core

end RpgLowering
