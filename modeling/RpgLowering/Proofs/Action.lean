import RpgLowering.Core.Program

/-! Bounded runs. An action reads and changes a store and prints values; it may fail, and it may
reach its bound. Two actions over different stores are compared through a relation of the stores:
related starts have to lead to the same ending, the same printed values and related stores. -/
namespace RpgLowering.Execution
variable {S T V : Type}

inductive Ending where
  | finished
  /-- A value is missing, or a name or an index refers to nothing. -/
  | failed
  /-- The bound on calls or on iterations was reached. -/
  | exhausted
  deriving DecidableEq, Repr

structure State (S V : Type) where
  store : S
  printed : List V := []

structure Outcome (S V : Type) where
  ending : Ending
  state : State S V

abbrev Action (S V : Type) := State S V → Outcome S V

/-- What runs need to know of values besides the values of expressions. -/
structure Values (V : Type) where
  zero : Core.Ty → V
  /-- The truth of a condition's value. -/
  holds : V → Option Bool
  atMost : V → V → Option Bool
  next : V → Option V

/-- Literals and operations of a domain of values. An operation may have no result. -/
structure Operations (V : Type) where
  integer : Int64 → V
  decimal : Binary64 → V
  string : String → V
  concat : V → V → Option V
  sum : V → V → Option V
  equal : V → V → Option V
  /-- The integer that a text spells. -/
  parse : V → Option V
  /-- The text of a value. -/
  format : V → Option V
  holds : V → Option Bool
  atMost : V → V → Option Bool
  next : V → Option V

def Operations.values (O : Operations V) : Values V where
  zero
    | .string => O.string ""
    | .integer => O.integer 0
    | .decimal => O.decimal .zero
  holds := O.holds
  atMost := O.atMost
  next := O.next

namespace Action

def skip : Action S V := fun s => ⟨.finished, s⟩

def stop (e : Ending) : Action S V := fun s => ⟨e, s⟩

/-- What an action printed before it stopped stays printed. -/
def andThen (a b : Action S V) : Action S V := fun s =>
  match a s with
  | ⟨.finished, t⟩ => b t
  | o => o

def update (f : S → Option S) : Action S V := fun s =>
  match f s.store with
  | some t => ⟨.finished, { s with store := t }⟩
  | none => ⟨.failed, s⟩

def print (f : S → Option V) : Action S V := fun s =>
  match f s.store with
  | some v => ⟨.finished, { s with printed := s.printed ++ [v] }⟩
  | none => ⟨.failed, s⟩

def choose (test : S → Option Bool) (yes no : Action S V) : Action S V := fun s =>
  match test s.store with
  | some true => yes s
  | some false => no s
  | none => ⟨.failed, s⟩

def whileTrue (test : S → Option Bool) (body : Action S V) : Nat → Action S V
  | 0 => stop .exhausted
  | n + 1 => choose test (andThen body (whileTrue test body n)) skip

theorem andThen_skip (a : Action S V) : andThen a skip = a := by
  funext s
  rcases h : a s with ⟨e, t⟩
  cases e <;> simp [andThen, skip, h]

theorem andThen_assoc (a b c : Action S V) :
    andThen (andThen a b) c = andThen a (andThen b c) := by
  funext s
  rcases h : a s with ⟨e, t⟩
  cases e <;> simp [andThen, h]

end Action

structure Outcome.Matches (R : S → T → Prop) (o : Outcome S V) (o' : Outcome T V) : Prop where
  ending : o.ending = o'.ending
  printed : o.state.printed = o'.state.printed
  store : R o.state.store o'.state.store

def Simulates (R : S → T → Prop) (a : Action S V) (b : Action T V) : Prop :=
  ∀ s t, R s.store t.store → s.printed = t.printed → (a s).Matches R (b t)

namespace Simulates
open RpgLowering.Execution.Action
variable {R : S → T → Prop}

theorem skip : Simulates R (skip (V := V)) skip :=
  fun _ _ hr hp => ⟨rfl, hp, hr⟩

theorem stop (e : Ending) : Simulates R (stop (V := V) e) (stop e) :=
  fun _ _ hr hp => ⟨rfl, hp, hr⟩

theorem andThen {a b : Action S V} {a' b' : Action T V}
    (ha : Simulates R a a') (hb : Simulates R b b') :
    Simulates R (a.andThen b) (a'.andThen b') := by
  intro s t hr hp
  have h := ha s t hr hp
  simp only [Action.andThen]
  rcases hs : a s with ⟨e, s'⟩
  rcases ht : a' t with ⟨e', t'⟩
  rw [hs, ht] at h
  obtain ⟨he, hprinted, hstore⟩ := h
  subst he
  cases e with
  | finished => exact hb s' t' hstore hprinted
  | failed => exact ⟨rfl, hprinted, hstore⟩
  | exhausted => exact ⟨rfl, hprinted, hstore⟩

theorem update {f : S → Option S} {g : T → Option T}
    (h : ∀ s t, R s t → Option.Rel R (f s) (g t)) :
    Simulates (V := V) R (update f) (update g) := by
  intro s t hr hp
  have hfg := h s.store t.store hr
  simp only [Action.update]
  generalize f s.store = x at hfg ⊢
  generalize g t.store = y at hfg ⊢
  cases hfg with
  | some hrel => exact ⟨rfl, hp, hrel⟩
  | none => exact ⟨rfl, hp, hr⟩

theorem print {f : S → Option V} {g : T → Option V} (h : ∀ s t, R s t → f s = g t) :
    Simulates R (print f) (print g) := by
  intro s t hr hp
  simp only [Action.print, h s.store t.store hr]
  cases g t.store with
  | some v => exact ⟨rfl, by simp only [hp], hr⟩
  | none => exact ⟨rfl, hp, hr⟩

theorem choose {f : S → Option Bool} {g : T → Option Bool}
    {a b : Action S V} {a' b' : Action T V} (h : ∀ s t, R s t → f s = g t)
    (ha : Simulates R a a') (hb : Simulates R b b') :
    Simulates R (choose f a b) (choose g a' b') := by
  intro s t hr hp
  simp only [Action.choose, h s.store t.store hr]
  rcases g t.store with _ | _ | _
  · exact ⟨rfl, hp, hr⟩
  · exact hb s t hr hp
  · exact ha s t hr hp

/- The bound of a loop is not tied to what its body does, so the induction is on the bound alone. -/
theorem whileTrue {f : S → Option Bool} {g : T → Option Bool} {a : Action S V} {b : Action T V}
    (h : ∀ s t, R s t → f s = g t) (hab : Simulates R a b) (n : Nat) :
    Simulates R (whileTrue f a n) (whileTrue g b n) := by
  induction n with
  | zero => exact stop .exhausted
  | succ n ih => exact choose h (hab.andThen ih) skip

end Simulates

end RpgLowering.Execution
