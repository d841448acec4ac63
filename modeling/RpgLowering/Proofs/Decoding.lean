/-! Things written as rows, one after another. Where the rows of each of them determine it and where it
ends, so do the rows of all of them, up to a row with which no further thing starts. -/
namespace RpgLowering
variable {α β ρ : Type} {rows : α → List ρ} {norm : α → β} {starts : ρ → Bool}

/-- The rows of a thing determine it up to `norm`, and where it ends. -/
def Decodes (rows : α → List ρ) (norm : α → β) (a : α) : Prop :=
  ∀ (a' : α) (rest rest' : List ρ), rows a ++ rest = rows a' ++ rest' →
    norm a = norm a' ∧ rest = rest'

/-- No further thing starts here. -/
def Closed (starts : ρ → Bool) (rest : List ρ) : Prop := ∀ r ∈ rest.head?, starts r = false

/-- The rows of several things determine them, and where the last of them ends. -/
def AllDecode (rows : α → List ρ) (norm : α → β) (starts : ρ → Bool) (as : List α) : Prop :=
  ∀ (as' : List α) (rest rest' : List ρ), Closed starts rest → Closed starts rest' →
    as.flatMap rows ++ rest = as'.flatMap rows ++ rest' → as.map norm = as'.map norm ∧ rest = rest'

/-- The first row of every thing starts it. -/
def Started (rows : α → List ρ) (starts : ρ → Bool) : Prop :=
  ∀ a, ∃ r tail, rows a = r :: tail ∧ starts r = true

theorem closed_cons {r : ρ} (h : starts r = false) (rest : List ρ) : Closed starts (r :: rest) := by
  simp [Closed, h]

theorem Started.not_closed (h : Started rows starts) (a : α) (as : List α) (rest : List ρ) :
    ¬ Closed starts ((a :: as).flatMap rows ++ rest) := by
  obtain ⟨r, tail, hrows, hr⟩ := h a
  simp [Closed, hrows, hr]

theorem Started.allDecode_nil (h : Started rows starts) : AllDecode rows norm starts [] := by
  intro as' rest rest' hrest _ heq
  cases as' with
  | nil => exact ⟨rfl, heq⟩
  | cons a' as' =>
    rw [List.flatMap_nil, List.nil_append] at heq
    rw [heq] at hrest
    exact absurd hrest (h.not_closed a' as' rest')

theorem Started.allDecode_cons (h : Started rows starts) {a : α} {as : List α}
    (ha : Decodes rows norm a) (has : AllDecode rows norm starts as) :
    AllDecode rows norm starts (a :: as) := by
  intro as' rest rest' hrest hrest' heq
  cases as' with
  | nil =>
    rw [List.flatMap_nil, List.nil_append] at heq
    rw [← heq] at hrest'
    exact absurd hrest' (h.not_closed a as rest)
  | cons a' as' =>
    rw [List.flatMap_cons, List.flatMap_cons, List.append_assoc, List.append_assoc] at heq
    obtain ⟨hfirst, htail⟩ := ha a' _ _ heq
    obtain ⟨hmore, hend⟩ := has as' rest rest' hrest hrest' htail
    rw [List.map_cons, List.map_cons, hfirst, hmore]
    exact ⟨rfl, hend⟩

theorem Started.allDecode (h : Started rows starts) (hrows : ∀ a, Decodes rows norm a)
    (as : List α) : AllDecode rows norm starts as := by
  induction as with
  | nil => exact h.allDecode_nil
  | cons a as ih => exact h.allDecode_cons (hrows a) ih

/-- A row that starts nothing marks the end. -/
theorem AllDecode.closing {as as' : List α} (h : AllDecode rows norm starts as) {r : ρ}
    (hr : starts r = false) {rest rest' : List ρ}
    (heq : as.flatMap rows ++ r :: rest = as'.flatMap rows ++ r :: rest') :
    as.map norm = as'.map norm ∧ rest = rest' := by
  obtain ⟨has, hrest⟩ := h as' _ _ (closed_cons hr rest) (closed_cons hr rest') heq
  exact ⟨has, (List.cons.inj hrest).2⟩

end RpgLowering
