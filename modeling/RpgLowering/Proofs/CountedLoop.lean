import RpgLowering.Core.OfSource
import RpgLowering.Proofs.ClassExecution
import Mathlib.Data.Int.Range

/-! Counted loops of a class. Their counter has 64 bits, and after the largest integer comes the
smallest. So a loop up to the largest integer never ends; any other loop runs its body once for every
integer from the first to the last, and ends. Of the body only those runs matter that the loop makes:
it may fail or go on forever for other values of the counter. -/
namespace RpgLowering

namespace Execution
variable {S T V α : Type}

/-- A loop that comes to its end, with what is seen in the store at the start of every iteration. -/
inductive Iterates (test : S → Option Bool) (body next : Action S V) (seen : S → α) :
    List α → State S V → State S V → Prop where
  | done {s} : test s.store = some false → Iterates test body next seen [] s s
  | turn {as s s' s'' t} : test s.store = some true → body s = ⟨.finished, s'⟩ →
      next s' = ⟨.finished, s''⟩ → Iterates test body next seen as s'' t →
      Iterates test body next seen (seen s.store :: as) s t

section
variable {test : S → Option Bool} {body next : Action S V} {seen : S → α}

theorem whileTrue_turn {s s' s'' : State S V} (ht : test s.store = some true)
    (hb : body s = ⟨.finished, s'⟩) (hn : next s' = ⟨.finished, s''⟩) (n : Nat) :
    Action.whileTrue test (body.andThen next) (n + 1) s =
      Action.whileTrue test (body.andThen next) n s'' := by
  simp only [Action.whileTrue, Action.choose, ht, Action.andThen, hb, hn]

/-- The bound has to exceed the number of iterations, for the test that fails. -/
theorem Iterates.whileTrue {as : List α} {s t : State S V}
    (h : Iterates test body next seen as s t) {n : Nat} (hn : as.length < n) :
    Action.whileTrue test (body.andThen next) n s = ⟨.finished, t⟩ := by
  induction h generalizing n with
  | done ht =>
    cases n with
    | zero => cases hn
    | succ n => simp only [Action.whileTrue, Action.choose, ht, Action.skip]
  | turn ht hb hnext _ ih =>
    cases n with
    | zero => cases hn
    | succ n =>
      rw [whileTrue_turn ht hb hnext]
      exact ih (Nat.lt_of_succ_lt_succ hn)

theorem Iterates.exhausted {as : List α} {s t : State S V}
    (h : Iterates test body next seen as s t) {n : Nat} (hn : n ≤ as.length) :
    (Action.whileTrue test (body.andThen next) n s).ending = .exhausted := by
  induction h generalizing n with
  | done ht =>
    cases n with
    | zero => rfl
    | succ n => cases hn
  | turn ht hb hnext _ ih =>
    cases n with
    | zero => rfl
    | succ n =>
      rw [whileTrue_turn ht hb hnext]
      exact ih (Nat.le_of_succ_le_succ hn)

/-- A loop that compares a counter with a last value, and whose iterations finish and leave the
next value in the counter. The test is made in the stores `At v`, where the counter is `v`. -/
structure Counts (test : S → Option Bool) (body next : Action S V) (hi : Int64)
    (At : Int64 → S → Prop) : Prop where
  test : ∀ v s, At v s → test s = some (decide (v ≤ hi))
  turn : ∀ v s, At v s.store → v ≤ hi → ∃ s' s'', body s = ⟨.finished, s'⟩ ∧
    next s' = ⟨.finished, s''⟩ ∧ At (v + 1) s''.store

theorem toInt_add_one {v : Int64} (h : v < Int64.maxValue) : (v + 1).toInt = v.toInt + 1 := by
  have hlow := Int64.le_toInt v
  have hhigh := Int64.lt_iff_toInt_lt.mp h
  have hmax : Int64.maxValue.toInt = 2 ^ 63 - 1 := by decide
  rw [Int64.toInt_add, Int64.toInt_one]
  exact Int.bmod_eq_of_le (by omega) (by omega)

theorem range_cons {a b : Int} (h : a < b) : Int.range a b = a :: Int.range (a + 1) b := by
  have hcount : (b - a).toNat = (b - (a + 1)).toNat + 1 := by omega
  rw [Int.range, Int.range, hcount, List.range_succ_eq_map, List.map_cons, List.map_map]
  congr 1
  · omega
  · apply List.map_congr_left
    intro k _
    simp only [Function.comp_apply]
    omega

theorem range_nil {a b : Int} (h : b ≤ a) : Int.range a b = [] := by
  have hcount : (b - a).toNat = 0 := by omega
  rw [Int.range, hcount, List.range_zero, List.map_nil]

theorem length_of_range {vs : List Int64} {a b : Int}
    (h : vs.map (·.toInt) = Int.range a (b + 1)) : vs.length = (b - a + 1).toNat := by
  have hcount := congrArg List.length h
  rw [List.length_map, Int.range, List.length_map, List.length_range] at hcount
  omega

variable {hi : Int64} {At : Int64 → S → Prop}

/- The induction is on the number of integers left. Below the largest integer the counter never
wraps, not even after the last iteration. -/
theorem Counts.iterates (hc : Counts test body next hi At) (hhi : hi < Int64.maxValue)
    {f : Int64 → α} (hseen : ∀ v s, At v s → seen s = f v) {lo : Int64} {s : State S V}
    (hs : At lo s.store) :
    ∃ (vs : List Int64) (t : State S V), vs.map (·.toInt) = Int.range lo.toInt (hi.toInt + 1) ∧
      Iterates test body next seen (vs.map f) s t ∧ ∃ v, At v t.store := by
  generalize hn : (hi.toInt + 1 - lo.toInt).toNat = n
  induction n generalizing lo s with
  | zero =>
    have hgt : ¬ lo ≤ hi := by
      rw [Int64.le_iff_toInt_le]
      omega
    have htest : test s.store = some false := by rw [hc.test lo s.store hs, decide_eq_false hgt]
    exact ⟨[], s, (range_nil (by omega)).symm, .done htest, lo, hs⟩
  | succ n ih =>
    have hle : lo ≤ hi := by
      rw [Int64.le_iff_toInt_le]
      omega
    have htest : test s.store = some true := by rw [hc.test lo s.store hs, decide_eq_true hle]
    have hlt : lo.toInt < hi.toInt + 1 := by omega
    have hnext := toInt_add_one (Int64.lt_of_le_of_lt hle hhi)
    obtain ⟨s', s'', hb, hs'', hat⟩ := hc.turn lo s hs hle
    obtain ⟨vs, t, hvs, hrest, hend⟩ := ih hat (by omega)
    refine ⟨lo :: vs, t, ?_, ?_, hend⟩
    · rw [List.map_cons, hvs, hnext, range_cons hlt]
    · rw [List.map_cons, ← hseen lo s.store hs]
      exact .turn htest hb hs'' hrest

theorem Counts.exhausted (hc : Counts test body next Int64.maxValue At) {v : Int64} {s : State S V}
    (hs : At v s.store) (n : Nat) :
    (Action.whileTrue test (body.andThen next) n s).ending = .exhausted := by
  induction n generalizing v s with
  | zero => rfl
  | succ n ih =>
    have hle : v ≤ Int64.maxValue := Int64.le_maxValue v
    obtain ⟨s', s'', hb, hnext, hat⟩ := hc.turn v s hs hle
    rw [whileTrue_turn (by rw [hc.test v s.store hs, decide_eq_true hle]) hb hnext]
    exact ih hat

end

/-- What finishes on one side finishes on the other. -/
theorem Simulates.finished {R : S → T → Prop} {a : Action S V} {b : Action T V}
    (h : Simulates R a b) {s s' : State S V} {t : State T V} (hr : R s.store t.store)
    (hp : s.printed = t.printed) (ha : a s = ⟨.finished, s'⟩) :
    ∃ t', b t = ⟨.finished, t'⟩ ∧ R s'.store t'.store ∧ s'.printed = t'.printed := by
  obtain ⟨hending, hprinted, hstore⟩ := h s t hr hp
  rw [ha] at hending hprinted hstore
  rcases hb : b t with ⟨e, t'⟩
  rw [hb] at hending hprinted hstore
  cases hending
  exact ⟨t', rfl, hstore, hprinted⟩

/-- A condition on the stores of one side, said of the stores of the other that are related to them. -/
def Carried (R : S → T → Prop) (At : Int64 → S → Prop) (v : Int64) (t : T) : Prop :=
  ∃ s, R s t ∧ At v s

/-- What simulates the parts of a loop that counts is a loop that counts. -/
theorem Counts.simulated {R : S → T → Prop} {test : S → Option Bool} {test' : T → Option Bool}
    {body next : Action S V} {body' next' : Action T V} {hi : Int64} {At : Int64 → S → Prop}
    (hc : Counts test body next hi At) (htest : ∀ s t, R s t → test s = test' t)
    (hbody : Simulates R body body') (hnext : Simulates R next next') :
    Counts test' body' next' hi (Carried R At) where
  test v t ht := by
    obtain ⟨s, hr, hat⟩ := ht
    rw [← htest s t hr, hc.test v s hat]
  turn v t ht hle := by
    obtain ⟨s, hr, hat⟩ := ht
    obtain ⟨s', s'', hb, hn, hat''⟩ := hc.turn v ⟨s, t.printed⟩ hat hle
    obtain ⟨t', hb', hr', hp'⟩ := hbody.finished hr rfl hb
    obtain ⟨t'', hn', hr'', -⟩ := hnext.finished hr' hp' hn
    exact ⟨t', t'', hb', hn', s''.store, hr'', hat''⟩

/-- The values of the counter with which a loop runs its body. A loop up to the largest integer goes
on from the smallest, so these are all values. -/
def Visits (lo hi v : Int64) : Prop := v ≤ hi ∧ (lo ≤ v ∨ hi = Int64.maxValue)

theorem Visits.next {lo hi v : Int64} (h : Visits lo hi v) :
    lo ≤ v + 1 ∨ hi = Int64.maxValue := by
  obtain ⟨hle, hlo | hmax⟩ := h
  · by_cases hv : v < Int64.maxValue
    · left
      have hnext := toInt_add_one hv
      rw [Int64.le_iff_toInt_le] at hlo ⊢
      omega
    · right
      exact Int64.le_antisymm (Int64.le_maxValue hi)
        (Int64.le_trans (Int64.not_lt.mp hv) hle)
  · exact .inr hmax

/-- Integers of 64 bits among the values. After the largest one comes the smallest. -/
structure Longs (D : Values V) where
  long : Int64 → V
  atMost_long : ∀ a b, D.atMost (long a) (long b) = some (decide (a ≤ b))
  next_long : ∀ a, D.next (long a) = some (long (a + 1))

end Execution

namespace Core
open Execution
variable {V : Type} {D : Values V}

/-- The body of a loop finishes, and changes neither the counter nor the value of the upper bound.
This is said only of the stores in which the loop makes its test, and of the values of the counter
with which it runs the body. -/
structure Steady (M : Meaning D) (L : Longs D) (id : GlobalId) (high : Expr) (lo hi : Int64)
    (body : Action (Store V) V) (I : Store V → Prop) : Prop where
  bound : ∀ σ, I σ → M.value high σ = some (L.long hi)
  body : ∀ s v, Visits lo hi v → I s.store → s.store id = L.long v →
    ∃ s', body s = ⟨.finished, s'⟩ ∧ s'.store id = L.long v ∧
      I (Function.update s'.store id (L.long (v + 1)))

theorem put_eq_finished {g : GlobalId} {value : Store V → Option V} {v : V} {s : State (Store V) V}
    (h : value s.store = some v) :
    put g value s = ⟨.finished, { s with store := Function.update s.store g v }⟩ := by
  simp only [put, Action.update, h, Option.map_some]

/-- The stores in which a loop makes its test, by the value of the counter. -/
def AtTest (L : Longs D) (id : GlobalId) (lo hi : Int64) (I : Store V → Prop) (v : Int64)
    (σ : Store V) : Prop :=
  (lo ≤ v ∨ hi = Int64.maxValue) ∧ I σ ∧ σ id = L.long v

section
variable {M : Meaning D} {L : Longs D} {id : GlobalId} {low high : Expr} {lo hi : Int64}
  {I : Store V → Prop}

theorem atTest_first {σ : Store V} (hI : I (Function.update σ id (L.long lo))) :
    AtTest L id lo hi I lo (Function.update σ id (L.long lo)) :=
  ⟨.inl (Int64.le_refl lo), hI, Function.update_self ..⟩

theorem Steady.counts {body : Action (Store V) V} (hs : Steady M L id high lo hi body I) :
    Counts (fun σ => M.value high σ >>= D.atMost (σ id)) body (put id fun σ => D.next (σ id)) hi
      (AtTest L id lo hi I) where
  test v σ hat := by
    obtain ⟨-, hI, hv⟩ := hat
    rw [hs.bound σ hI, hv]
    exact L.atMost_long v hi
  turn v s hat hle := by
    obtain ⟨hlo, hI, hv⟩ := hat
    have hvisits : Visits lo hi v := ⟨hle, hlo⟩
    obtain ⟨s', hfinished, hv', hI'⟩ := hs.body s v hvisits hI hv
    have hnext : D.next (s'.store id) = some (L.long (v + 1)) := by rw [hv', L.next_long]
    exact ⟨s', _, hfinished, put_eq_finished hnext, hvisits.next, hI', Function.update_self ..⟩

/-- A loop ends if the bound exceeds the number of its iterations, in a store of its last test. -/
theorem Steady.run_loop {p : Program} {call : FunctionId → Action (Store V) V} {bound : Nat}
    {body : List Stmt} (hs : Steady M L id high lo hi (Stmt.runAll M p call bound body) I)
    (hhi : hi < Int64.maxValue) (hbound : (hi.toInt - lo.toInt + 1).toNat < bound)
    {s : State (Store V) V} (hlo : M.value low s.store = some (L.long lo))
    (hI : I (Function.update s.store id (L.long lo))) :
    ∃ t, (Stmt.loop id low high body).run M p call bound s = ⟨.finished, t⟩ ∧ I t.store := by
  have hseen : ∀ v σ, AtTest L id lo hi I v σ → σ id = L.long v := fun _ _ hat => hat.2.2
  obtain ⟨vs, t, hvs, hiter, -, -, hend, -⟩ := hs.counts.iterates hhi hseen
    (s := { s with store := _ }) (atTest_first hI)
  refine ⟨t, ?_, hend⟩
  rw [Stmt.run, Action.andThen, put_eq_finished hlo]
  exact hiter.whileTrue (by rwa [List.length_map, length_of_range hvs])

end

end Core

namespace Target
open Execution
open RpgLowering.Core (GlobalId FunctionId Program)
variable {V : Type} {D : Values V} {p : Program} {c : Class}

section
variable (D : Values V) (N : Meaning V) (c : Class) (locals : String → Option V)
  (call : String → Action (Store V) V) (bound : Nat)

/-- A `for` statement that comes to its end, with the values that a field has at the start of every
iteration. -/
def Stmt.Iterates (field : String) (vs : List V) (a b : State (Store V) V) : Stmt → Prop
  | .loop init test update body => ∃ a',
    Expr.performAll D N c locals call init a = ⟨.finished, a'⟩ ∧
    Execution.Iterates (fun τ => (test.map fun e => e.test D N c locals τ).getD (some true))
      (body.run D N c locals call bound) (Expr.performAll D N c locals call update)
      (c.read · field) (vs.map some) a' b
  | _ => False

end

section
variable {M : Core.Meaning D} {N : Meaning V} {locals : String → Option V}
  {call : FunctionId → Action (Core.Store V) V} {call' : String → Action (Store V) V} {bound : Nat}

theorem Stmt.iterates_for {init test update : Expr} {body : List Stmt} {field : String} {vs : List V}
    {a b : State (Store V) V} :
    (Stmt.loop [init] (some test) [update] (.block body)).Iterates D N c locals call' bound field vs
      a b ↔ ∃ a', init.perform D N c locals call' a = ⟨.finished, a'⟩ ∧
        Execution.Iterates (fun τ => test.test D N c locals τ)
          (Stmt.runAll D N c locals call' bound body) (update.perform D N c locals call')
          (c.read · field) (vs.map some) a' b := by
  simp only [Stmt.Iterates, Expr.performAll, Action.andThen_skip, Option.map_some,
    Option.getD_some, Stmt.run]

variable {L : Longs D} {id : GlobalId} {g : Core.Global} {low high : Core.Expr} {lo hi : Int64}
  {body : List Core.Stmt} {I : Core.Store V → Prop}

/-- What a loop is lowered to sets its counter to the first value and then counts. -/
theorem loop_ofCore (hl : Linked p c call call') (hg : p.global? id = some g)
    {t : Stmt} (ht : Stmt.ofCore p (.loop id low high body) = .ok t)
    (ha : ∀ e ∈ (Core.Stmt.loop id low high body).expressions p, Agrees p c M N e)
    (hs : Core.Steady M L id high lo hi (Core.Stmt.runAll M p call bound body) I)
    {σ : Core.Store V} (hI : I (Function.update σ id (L.long lo)))
    (hlo : M.value low σ = some (L.long lo)) {a : State (Store V) V}
    (hr : Corresponds p σ a.store) (locals : String → Option V) :
    ∃ init test update body' a', t = .loop [init] (some test) [update] (.block body') ∧
      init.perform D N c locals call' a = ⟨.finished, a'⟩ ∧
      Carried (Corresponds p) (Core.AtTest L id lo hi I) lo a'.store ∧
      Counts (fun τ => test.test D N c locals τ) (Stmt.runAll D N c locals call' bound body')
        (update.perform D N c locals call') hi
        (Carried (Corresponds p) (Core.AtTest L id lo hi I)) := by
  simp only [Stmt.ofCore, bind_eq_ok, fieldOf_eq_ok] at ht
  obtain ⟨_, ⟨g', hg', rfl⟩, low', hlow, high', hhigh, body', hbody, ⟨⟩⟩ := ht
  obtain rfl : g' = g := Option.some.inj (hg'.symm.trans hg)
  simp only [Core.Stmt.expressions, List.forall_mem_cons] at ha
  obtain ⟨halow, hahigh, habody⟩ := ha
  have hput : Core.put id (M.value low) ⟨σ, a.printed⟩ = _ := Core.put_eq_finished hlo
  have hinit := put_simulates hl.class_eq hl.names hg (halow low' hlow locals)
  obtain ⟨a', ha', hr', -⟩ := hinit.finished hr rfl hput
  refine ⟨_, _, _, body', a', rfl, ha', ⟨_, hr', Core.atTest_first hI⟩, ?_⟩
  exact hs.counts.simulated (test_atMost hl hg hhigh hahigh) (runAll_ofCore hl body hbody habody)
    (increment_simulates hl hg)

/-- A loop up to the largest integer is never done. -/
theorem loop_exhausted (hl : Linked p c call call') (hg : p.global? id = some g)
    {t : Stmt} (ht : Stmt.ofCore p (.loop id low high body) = .ok t)
    (ha : ∀ e ∈ (Core.Stmt.loop id low high body).expressions p, Agrees p c M N e)
    (hs : Core.Steady M L id high lo Int64.maxValue (Core.Stmt.runAll M p call bound body) I)
    {σ : Core.Store V} (hI : I (Function.update σ id (L.long lo)))
    (hlo : M.value low σ = some (L.long lo)) {a : State (Store V) V}
    (hr : Corresponds p σ a.store) (locals : String → Option V) :
    (t.run D N c locals call' bound a).ending = .exhausted ∧
      ∀ field vs b, ¬ t.Iterates D N c locals call' bound field vs a b := by
  obtain ⟨init, test, update, body', a', rfl, hinit, hat, hcounts⟩ :=
    loop_ofCore hl hg ht ha hs hI hlo hr locals
  constructor
  · rw [Stmt.run_for, Action.andThen, hinit]
    exact hcounts.exhausted hat bound
  · intro field vs b hb
    obtain ⟨a'', hinit', hiter⟩ := Stmt.iterates_for.mp hb
    obtain rfl : a' = a'' := congrArg Outcome.state (hinit.symm.trans hinit')
    have hend := hcounts.exhausted hat ((vs.map some).length + 1)
    rw [hiter.whileTrue (Nat.lt_succ_self _)] at hend
    cases hend

/-- Any other loop ends, after one iteration for every integer of its range. -/
theorem loop_iterates (hl : Linked p c call call') (hg : p.global? id = some g)
    {t : Stmt} (ht : Stmt.ofCore p (.loop id low high body) = .ok t)
    (ha : ∀ e ∈ (Core.Stmt.loop id low high body).expressions p, Agrees p c M N e)
    (hs : Core.Steady M L id high lo hi (Core.Stmt.runAll M p call bound body) I)
    (hhi : hi < Int64.maxValue) {σ : Core.Store V} (hI : I (Function.update σ id (L.long lo)))
    (hlo : M.value low σ = some (L.long lo)) {a : State (Store V) V} (hr : Corresponds p σ a.store)
    (locals : String → Option V) :
    ∃ (vs : List Int64) (b : State (Store V) V),
      vs.map (·.toInt) = Int.range lo.toInt (hi.toInt + 1) ∧
      t.Iterates D N c locals call' bound g.name (vs.map L.long) a b ∧
      (vs.length < bound → t.run D N c locals call' bound a = ⟨.finished, b⟩) ∧
      (bound ≤ vs.length → (t.run D N c locals call' bound a).ending = .exhausted) := by
  obtain ⟨init, test, update, body', a', rfl, hinit, hat, hcounts⟩ :=
    loop_ofCore hl hg ht ha hs hI hlo hr locals
  have hseen : ∀ v τ, Carried (Corresponds p) (Core.AtTest L id lo hi I) v τ →
      c.read τ g.name = some (L.long v) := by
    intro v τ hτ
    obtain ⟨σ', hr', -, -, hv⟩ := hτ
    rw [read_of_corresponds hl.class_eq hr' hg, hv]
  obtain ⟨vs, b, hvs, hiter, -⟩ := hcounts.iterates hhi hseen hat
  refine ⟨vs, b, hvs, ?_, fun hn => ?_, fun hn => ?_⟩
  · rw [Stmt.iterates_for, List.map_map]
    exact ⟨a', hinit, hiter⟩
  · rw [Stmt.run_for, Action.andThen, hinit]
    exact hiter.whileTrue (by rwa [List.length_map])
  · rw [Stmt.run_for, Action.andThen, hinit]
    exact hiter.exhausted (by rwa [List.length_map])

end

/-- A loop over an integer counter, whose body finishes and changes neither the counter nor the upper
bound, in the runs that the loop makes. In the class the counter is a long field. Unless the last
value is the largest integer, the loop ends, after one iteration for every integer from the first
value to the last, with that integer in the counter. A loop up to the largest integer does not end. -/
theorem loop_runs_range (h : Class.ofCore p = .ok c) (hglobals : (p.globals.map (·.name)).Nodup)
    (hfunctions : (p.functions.map (·.name)).Nodup) (M : Core.Meaning D) (N : Meaning V)
    (L : Longs D) {id : GlobalId} (hty : p.typeOf? id = some .integer) {low high : Core.Expr}
    {body : List Core.Stmt} {t : Stmt} (ht : Stmt.ofCore p (.loop id low high body) = .ok t)
    (ha : ∀ e ∈ (Core.Stmt.loop id low high body).expressions p ++ p.expressions,
      Agrees p c M N e)
    {bound : Nat} {lo hi : Int64} {I : Core.Store V → Prop}
    (hs : Core.Steady M L id high lo hi (Core.Stmt.runAll M p (p.call M bound) bound body) I)
    {σ : Core.Store V} (hI : I (Function.update σ id (L.long lo)))
    (hlo : M.value low σ = some (L.long lo)) {a : State (Store V) V}
    (hr : Corresponds p σ a.store) (locals : String → Option V) :
    ∃ g f, p.global? id = some g ∧ c.field? g.name = some f ∧ f.ty = .long ∧
      (hi < Int64.maxValue → ∃ (vs : List Int64) (b : State (Store V) V),
        vs.map (·.toInt) = Int.range lo.toInt (hi.toInt + 1) ∧
        vs.length = (hi.toInt - lo.toInt + 1).toNat ∧
        t.Iterates D N c locals (c.call D N bound) bound g.name (vs.map L.long) a b ∧
        (vs.length < bound →
          t.run D N c locals (c.call D N bound) bound a = ⟨.finished, b⟩) ∧
        (bound ≤ vs.length →
          (t.run D N c locals (c.call D N bound) bound a).ending = .exhausted)) ∧
      (hi = Int64.maxValue →
        (t.run D N c locals (c.call D N bound) bound a).ending = .exhausted ∧
        ∀ field vs b, ¬ t.Iterates D N c locals (c.call D N bound) bound field vs a b) := by
  obtain ⟨g, hg, hgty⟩ := Option.map_eq_some_iff.mp hty
  obtain ⟨f, hf, hfty⟩ := ty_field? h hglobals hg
  have hcalls := call_simulates h hglobals hfunctions
    (fun e he => ha e (List.mem_append_right _ he)) bound
  have hl : Linked p c (p.call M bound) (c.call D N bound) := ⟨h, hglobals, hcalls⟩
  have hloop := fun e he => ha e (List.mem_append_left _ he)
  refine ⟨g, f, hg, hf, by rw [hfty, hgty]; rfl, fun hhi => ?_, fun hhi => ?_⟩
  · obtain ⟨vs, b, hvs, hiter, hfinished, hexhausted⟩ :=
      loop_iterates hl hg ht hloop hs hhi hI hlo hr locals
    exact ⟨vs, b, hvs, length_of_range hvs, hiter, hfinished, hexhausted⟩
  · subst hhi
    exact loop_exhausted hl hg ht hloop hs hI hlo hr locals

end Target

namespace Core
open Execution
open RpgLowering.Source (CompilationUnit DataId Reference)

/-- Integers of 64 bits as values; a text or a decimal counts for nothing. -/
def wrapping : Operations Int64 where
  integer v := v
  decimal _ := 0
  string _ := 0
  concat a b := some (a + b)
  sum a b := some (a + b)
  equal a b := some (if a = b then 1 else 0)
  parse a := some a
  format a := some a
  holds a := some (a != 0)
  atMost a b := some (decide (a ≤ b))
  next a := some (a + 1)

/-- An expression that has its value without an operation. -/
def Expr.isPlain : Expr → Bool
  | .integer _ | .global _ => true
  | _ => false

def wrappingLongs : Longs wrapping.values := ⟨fun v => v, fun _ _ => rfl, fun _ => rfl⟩

/-- Displays the integers from the first to the last. -/
def countTo (first last : Int64) : CompilationUnit :=
  let counter : Reference DataId := ⟨"I", some ⟨1⟩⟩
  { data := [{ id := ⟨1⟩, name := "I", ty := .number 19 0 }]
    main := [.loop none (.assign none (.data none counter) (.int none first)) (.int none last) none
      false [.display none none (some (.data none counter))]] }

def countLoop (first last : Int64) : Stmt :=
  .loop ⟨0⟩ (.integer first) (.integer last) [.print (.global ⟨0⟩)]

def countProgram (first last : Int64) : Program :=
  { name := "Count"
    globals := [{ name := "I", ty := .integer }]
    main := { name := "main", body := [countLoop first last] } }

theorem ofSource_countTo (first last : Int64) :
    Program.ofSource "Count" (countTo first last) = .ok (countProgram first last) := rfl

theorem steady_count (first last : Int64) (bound : Nat) :
    Steady (meaningOf wrapping) wrappingLongs ⟨0⟩ (.integer last) first last
      (Stmt.runAll (meaningOf wrapping) (countProgram first last)
        ((countProgram first last).call (meaningOf wrapping) bound) bound [.print (.global ⟨0⟩)])
      fun _ => True where
  bound _ _ := rfl
  body _ _ _ _ hv := ⟨_, rfl, hv, trivial⟩

/-- For every integer of a range, displays the integers from the first to that one. -/
def triangleTo (first last : Int64) : CompilationUnit :=
  let row : Reference DataId := ⟨"I", some ⟨1⟩⟩
  let column : Reference DataId := ⟨"J", some ⟨2⟩⟩
  { data := [{ id := ⟨1⟩, name := "I", ty := .number 19 0 },
      { id := ⟨2⟩, name := "J", ty := .number 19 0 }]
    main := [.loop none (.assign none (.data none row) (.int none first)) (.int none last) none
      false [.loop none (.assign none (.data none column) (.int none first)) (.data none row) none
        false [.display none none (some (.data none column))]]] }

def rowLoop (first : Int64) : Stmt :=
  .loop ⟨1⟩ (.integer first) (.global ⟨0⟩) [.print (.global ⟨1⟩)]

def triangleLoop (first last : Int64) : Stmt :=
  .loop ⟨0⟩ (.integer first) (.integer last) [rowLoop first]

def triangleProgram (first last : Int64) : Program :=
  { name := "Triangle"
    globals := [{ name := "I", ty := .integer }, { name := "J", ty := .integer }]
    main := { name := "main", body := [triangleLoop first last] } }

theorem ofSource_triangleTo (first last : Int64) :
    Program.ofSource "Triangle" (triangleTo first last) = .ok (triangleProgram first last) := rfl

/- The upper bound of a row is the counter of the outer loop, so no bound on runs is enough for all
rows. It is enough for the rows that the outer loop visits if it is for the last of them. -/
theorem steady_triangle (first last : Int64) (bound : Nat) (hlast : last < Int64.maxValue)
    (hbound : (last.toInt - first.toInt + 1).toNat < bound) :
    Steady (meaningOf wrapping) wrappingLongs ⟨0⟩ (.integer last) first last
      (Stmt.runAll (meaningOf wrapping) (triangleProgram first last)
        ((triangleProgram first last).call (meaningOf wrapping) bound) bound [rowLoop first])
      fun _ => True where
  bound _ _ := rfl
  body s v hv _ hs := by
    have hrow : Steady (meaningOf wrapping) wrappingLongs ⟨1⟩ (.global ⟨0⟩) first v
        (Stmt.runAll (meaningOf wrapping) (triangleProgram first last)
          ((triangleProgram first last).call (meaningOf wrapping) bound) bound
          [.print (.global ⟨1⟩)]) fun σ => σ ⟨0⟩ = v :=
      { bound := fun _ hσ => congrArg some hσ
        body := fun _ _ _ hσ hw => ⟨_, rfl, hw, hσ⟩ }
    have hlow : (meaningOf wrapping).value (.integer first) s.store =
        some (wrappingLongs.long first) := rfl
    have hle := Int64.le_iff_toInt_le.mp hv.1
    obtain ⟨t, ht, hrest⟩ :=
      hrow.run_loop (Int64.lt_of_le_of_lt hv.1 hlast) (by omega) hlow hs
    exact ⟨t, (congrFun (Stmt.runAll_singleton ..) s).trans ht, hrest, trivial⟩

end Core

namespace Target
open Execution
open RpgLowering.Core (countTo countProgram triangleTo triangleProgram wrapping wrappingLongs)

/-- Integer literals are worth themselves. -/
def literals : Meaning Int64 := fun e _ =>
  match e with
  | .int v => some v
  | _ => none

theorem agrees_of_plain {p : Core.Program} {c : Class} (h : Class.ofCore p = .ok c)
    {es : List Core.Expr} (hes : es.all Core.Expr.isPlain = true) :
    ∀ e ∈ es, Agrees p c (Core.meaningOf wrapping) literals e := by
  intro e he e' he' locals σ τ hr
  have hplain := List.all_eq_true.mp hes e he
  cases e with
  | integer v =>
    cases he'
    rfl
  | global id =>
    obtain ⟨g, hg, rfl⟩ := fieldOf_eq_ok.mp he'
    exact read_of_corresponds h hr hg
  | _ => cases hplain

/-- A loop around a loop up to its own counter. With the largest integer in that counter the inner
loop would not end. -/
theorem loop_runs_range_up_to_largest : ∃ p c t, ∃ (vs : List Int64) (b : State (Store Int64) Int64),
    Core.Program.ofSource "Triangle" (triangleTo 9223372036854775805 9223372036854775806) = .ok p ∧
    Class.ofCore p = .ok c ∧ Stmt.ofCores p p.main.body = .ok [t] ∧
    vs.map (·.toInt) = [9223372036854775805, 9223372036854775806] ∧
    t.Iterates wrapping.values literals c (fun _ => none) (c.call wrapping.values literals 3) 3 "I"
      vs ⟨fun _ => 0, []⟩ b ∧
    t.run wrapping.values literals c (fun _ => none) (c.call wrapping.values literals 3) 3
      ⟨fun _ => 0, []⟩ = ⟨.finished, b⟩ := by
  obtain ⟨c, hc⟩ : ∃ c, Class.ofCore (triangleProgram 9223372036854775805 9223372036854775806) =
    .ok c := ⟨_, rfl⟩
  obtain ⟨t, ht⟩ : ∃ t, Stmt.ofCore (triangleProgram 9223372036854775805 9223372036854775806)
    (Core.triangleLoop 9223372036854775805 9223372036854775806) = .ok t := ⟨_, rfl⟩
  have hsteady := Core.steady_triangle 9223372036854775805 9223372036854775806 3 (by decide)
    (by decide)
  have hstores : Corresponds (triangleProgram 9223372036854775805 9223372036854775806)
    (fun _ => (0 : Int64)) (fun _ => 0) := fun _ _ _ => rfl
  obtain ⟨g, f, hg, -, -, hrange, -⟩ := loop_runs_range hc (by decide) (by decide)
    (Core.meaningOf wrapping) literals wrappingLongs rfl ht (agrees_of_plain hc rfl) hsteady
    (a := ⟨fun _ => 0, []⟩) trivial rfl hstores fun _ => none
  cases hg
  obtain ⟨vs, b, hvs, hlength, hiter, hrun, -⟩ := hrange (by decide)
  have hids : vs.map wrappingLongs.long = vs := List.map_id vs
  rw [hids] at hiter
  refine ⟨_, c, t, vs, b, Core.ofSource_triangleTo _ _, hc, ?_, hvs, hiter, hrun ?_⟩
  · cases ht
    rfl
  · rw [hlength]
    decide

/-- The loop over the largest integer alone: one iteration is right, and no bound is enough. -/
theorem loop_to_largest : ∃ p c t,
    Core.Program.ofSource "Count" (countTo Int64.maxValue Int64.maxValue) = .ok p ∧
    Class.ofCore p = .ok c ∧ Stmt.ofCores p p.main.body = .ok [t] ∧
    ∀ bound, (t.run wrapping.values literals c (fun _ => none)
      (c.call wrapping.values literals bound) bound ⟨fun _ => 0, []⟩).ending = .exhausted := by
  obtain ⟨c, hc⟩ : ∃ c, Class.ofCore (countProgram Int64.maxValue Int64.maxValue) = .ok c :=
    ⟨_, rfl⟩
  obtain ⟨t, ht⟩ : ∃ t, Stmt.ofCore (countProgram Int64.maxValue Int64.maxValue)
    (Core.countLoop Int64.maxValue Int64.maxValue) = .ok t := ⟨_, rfl⟩
  refine ⟨_, c, t, Core.ofSource_countTo _ _, hc, ?_, fun bound => ?_⟩
  · cases ht
    rfl
  · have hcalls := call_simulates hc (by decide) (by decide) (agrees_of_plain hc rfl) bound
    have hsteady := Core.steady_count Int64.maxValue Int64.maxValue bound
    have hstores : Corresponds (countProgram Int64.maxValue Int64.maxValue) (fun _ => (0 : Int64))
      (fun _ => 0) := fun _ _ _ => rfl
    exact (loop_exhausted ⟨hc, by decide, hcalls⟩ rfl ht (agrees_of_plain hc rfl) hsteady
      (a := ⟨fun _ => 0, []⟩) trivial rfl hstores fun _ => none).1

end Target

end RpgLowering
