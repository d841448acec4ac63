import RpgLowering.Span
import Mathlib.Data.List.Induction
import Mathlib.Data.List.Nodup

/-! The elements of a list that are the first with their key, and the table that numbers them. -/
namespace RpgLowering
variable {α β γ ι : Type} [DecidableEq ι]

omit [DecidableEq ι] in
theorem index_eq_of_key_eq {key : α → ι} {l : List α} (hn : (l.map key).Nodup) {i j : Nat}
    {a b : α} (ha : l[i]? = some a) (hb : l[j]? = some b) (he : key a = key b) : i = j := by
  have hlt : i < (l.map key).length := by
    rw [List.length_map]
    exact (List.getElem?_eq_some_iff.mp ha).1
  refine (List.getElem?_inj hlt hn).mp ?_
  rw [List.getElem?_map, List.getElem?_map, ha, hb, Option.map_some, Option.map_some, he]

theorem find?_key {key : α → ι} {l : List α} (hn : (l.map key).Nodup) {a : α} (ha : a ∈ l) :
    l.find? (key · == key a) = some a := by
  induction l with
  | nil => simp at ha
  | cons b l ih =>
    obtain ⟨hnot, hn⟩ := List.nodup_cons.mp hn
    rcases List.mem_cons.mp ha with rfl | htail
    · simp
    · have hne : key b ≠ key a := by
        intro he
        exact hnot (he ▸ List.mem_map_of_mem htail)
      rw [List.find?_cons_of_neg (by simpa using hne), ih hn htail]

/-- What a key finds among distinct ones does not depend on their order. -/
theorem find?_perm {key : α → ι} {l l' : List α} (h : l.Perm l') (hn : (l.map key).Nodup) (k : ι) :
    l.find? (key · == k) = l'.find? (key · == k) := by
  by_cases hk : ∃ a ∈ l, key a = k
  · obtain ⟨a, ha, rfl⟩ := hk
    rw [find?_key hn ha, find?_key ((h.map key).nodup_iff.mp hn) (h.mem_iff.mp ha)]
  · have hnone : ∀ m : List α, m.Perm l → m.find? (key · == k) = none := by
      intro m hm
      apply List.find?_eq_none.mpr
      intro a ha hkey
      exact hk ⟨a, hm.mem_iff.mp ha, beq_iff_eq.mp hkey⟩
    rw [hnone l (.refl l), hnone l' h.symm]

theorem findIdx?_key {key : α → ι} {l : List α} (hn : (l.map key).Nodup) {i : Nat} {a : α}
    (ha : l[i]? = some a) : l.findIdx? (key · == key a) = some i := by
  obtain ⟨hlt, hget⟩ := List.getElem?_eq_some_iff.mp ha
  refine List.findIdx?_eq_some_iff_getElem.mpr ⟨hlt, by simp [hget], fun j hj => ?_⟩
  simp only [beq_iff_eq]
  intro hkey
  have hindex := index_eq_of_key_eq hn (List.getElem?_eq_getElem (Nat.lt_trans hj hlt)) ha hkey
  exact Nat.ne_of_lt hj hindex

def firsts (key : α → ι) : List α → List α
  | [] => []
  | a :: l => a :: (firsts key l).filter fun b => key b ≠ key a

theorem firsts_concat (key : α → ι) (l : List α) (a : α) :
    firsts key (l ++ [a]) = if key a ∈ l.map key then firsts key l else firsts key l ++ [a] := by
  induction l with
  | nil => simp [firsts]
  | cons b l ih =>
    rw [List.cons_append, firsts, ih, firsts]
    by_cases hl : key a ∈ l.map key
    · rw [if_pos hl, if_pos (by simp only [List.map_cons, List.mem_cons]; exact .inr hl)]
    · by_cases hb : key a = key b
      · rw [if_neg hl, if_pos (by simp only [List.map_cons, List.mem_cons]; exact .inl hb)]
        simp [hb]
      · rw [if_neg hl, if_neg (by simp only [List.map_cons, List.mem_cons]; tauto)]
        simp [hb]

theorem mem_keys_firsts (key : α → ι) (l : List α) (k : ι) :
    k ∈ (firsts key l).map key ↔ k ∈ l.map key := by
  induction l with
  | nil => rfl
  | cons a l ih =>
    by_cases hk : k = key a
    · simp [firsts, hk]
    · simp only [firsts, List.map_cons, List.mem_cons, hk, false_or]
      rw [← ih, List.mem_map, List.mem_map]
      constructor
      · rintro ⟨b, hb, rfl⟩
        exact ⟨b, (List.mem_filter.mp hb).1, rfl⟩
      · rintro ⟨b, hb, rfl⟩
        exact ⟨b, List.mem_filter.mpr ⟨hb, by simpa using hk⟩, rfl⟩

/-- The keys of the first elements are all keys, each at the place where it appears first. -/
theorem map_key_firsts (key : α → ι) (l : List α) :
    (firsts key l).map key = (l.map key).eraseDups := by
  induction l using List.reverseRecOn with
  | nil => rfl
  | append_singleton l a ih =>
    rw [firsts_concat, List.map_append, List.map_singleton, List.eraseDups_append, ← ih]
    by_cases ha : key a ∈ l.map key
    · have hnone : [key a].removeAll (l.map key) = [] := by
        rw [List.cons_removeAll, if_neg (by simpa using ha)]
        rfl
      rw [if_pos ha, hnone, List.eraseDups_nil, List.append_nil]
    · have hone : [key a].removeAll (l.map key) = [key a] := by
        rw [List.cons_removeAll, if_pos (by simpa using ha)]
        rfl
      rw [if_neg ha, List.map_append, List.map_singleton, hone]
      rfl

theorem nodup_keys_firsts (key : α → ι) (l : List α) : ((firsts key l).map key).Nodup := by
  induction l with
  | nil => exact List.nodup_nil
  | cons a l ih =>
    rw [firsts, List.map_cons, List.nodup_cons]
    constructor
    · intro h
      obtain ⟨b, hb, hab⟩ := List.mem_map.mp h
      have hne := (List.mem_filter.mp hb).2
      simp [hab] at hne
    · exact ih.sublist (List.Sublist.map key List.filter_sublist)

theorem firsts_eq_self (key : α → ι) (l : List α) (h : (l.map key).Nodup) : firsts key l = l := by
  induction l with
  | nil => rfl
  | cons a l ih =>
    obtain ⟨hnot, hn⟩ := List.nodup_cons.mp h
    rw [firsts, ih hn, List.filter_eq_self.mpr]
    intro b hb
    have hne : key b ≠ key a := fun he => hnot (he ▸ List.mem_map_of_mem hb)
    simpa using hne

theorem find?_firsts (key : α → ι) (l : List α) (k : ι) :
    (firsts key l).find? (key · == k) = l.find? (key · == k) := by
  induction l with
  | nil => rfl
  | cons a l ih =>
    by_cases ha : key a = k
    · simp [firsts, ha]
    · have hbeq : (key a == k) = false := by simpa using ha
      have hfilter : ∀ b, (decide (key b ≠ key a) && key b == k) = (key b == k) := by
        intro b
        by_cases hb : key b = k
        · simp [hb, Ne.symm ha]
        · simp [hb]
      simp only [firsts, List.find?_cons, hbeq, ← ih, List.find?_filter, Bool.decide_and,
        Bool.decide_eq_true, hfilter]

theorem find?_of_mem_firsts {key : α → ι} {l : List α} {a : α} (ha : a ∈ firsts key l) :
    l.find? (key · == key a) = some a := by
  rw [← find?_firsts]
  exact find?_key (nodup_keys_firsts key l) ha

/- A split of `l ++ [a]` at an element is a split of `l`, with `a` added behind, or the last one. -/
omit [DecidableEq ι] in
theorem forall_split_concat {P : List α → α → Prop} {l : List α} {a : α} :
    (∀ before b after, l ++ [a] = before ++ b :: after → P before b) ↔
      (∀ before b after, l = before ++ b :: after → P before b) ∧ P l a := by
  constructor
  · intro h
    refine ⟨fun before b after hl => h before b (after ++ [a]) ?_, h l a [] rfl⟩
    rw [hl, List.append_assoc, List.cons_append]
  · rintro ⟨hl, ha⟩ before b after h
    rcases List.eq_nil_or_concat after with rfl | ⟨after, c, rfl⟩
    · obtain ⟨rfl, hab⟩ := List.append_inj' h rfl
      cases hab
      exact ha
    · rw [List.concat_eq_append, ← List.cons_append, ← List.append_assoc] at h
      exact hl before b after (List.append_inj' h rfl).1

omit [DecidableEq ι] in
theorem forall_split_cons {P : List α → α → Prop} {a : α} {l : List α} :
    (∀ before b after, a :: l = before ++ b :: after → P before b) ↔
      P [] a ∧ ∀ before b after, l = before ++ b :: after → P (a :: before) b := by
  constructor
  · intro h
    refine ⟨h [] a l rfl, fun before b after hl => h (a :: before) b after ?_⟩
    rw [hl, List.cons_append]
  · rintro ⟨ha, hl⟩ before b after h
    cases before with
    | nil =>
      cases h
      exact ha
    | cons c before =>
      obtain ⟨rfl, htail⟩ := List.cons.inj h
      exact hl before b after htail

/-- An element that comes before all others of its key. -/
theorem mem_firsts {key : α → ι} {l : List α} {a : α} :
    a ∈ firsts key l ↔ ∃ before after, l = before ++ a :: after ∧ key a ∉ before.map key := by
  induction l with
  | nil => simp [firsts]
  | cons b l ih =>
    constructor
    · intro h
      rcases List.mem_cons.mp h with rfl | h
      · exact ⟨[], l, rfl, List.not_mem_nil⟩
      · obtain ⟨hmem, hne⟩ := List.mem_filter.mp h
        obtain ⟨before, after, rfl, hk⟩ := ih.mp hmem
        refine ⟨b :: before, after, rfl, ?_⟩
        rw [List.map_cons, List.mem_cons, not_or]
        exact ⟨by simpa using hne, hk⟩
    · rintro ⟨before, after, h, hk⟩
      cases before with
      | nil =>
        cases h
        exact List.mem_cons_self
      | cons c before =>
        obtain ⟨rfl, rfl⟩ := List.cons.inj h
        rw [List.map_cons, List.mem_cons, not_or] at hk
        refine List.mem_cons_of_mem _ (List.mem_filter.mpr ⟨ih.mpr ⟨before, after, rfl, hk.2⟩, ?_⟩)
        simpa using hk.1

/-- The first element of its key, if it is one, is mapped to something new. -/
def Fresh (key : α → ι) (f : α → γ) (before : List α) (a : α) : Prop :=
  key a ∉ before.map key → f a ∉ (firsts key before).map f

theorem nodup_map_firsts (key : α → ι) (f : α → γ) (l : List α) :
    ((firsts key l).map f).Nodup ↔
      ∀ before a after, l = before ++ a :: after → Fresh key f before a := by
  induction l using List.reverseRecOn with
  | nil => simp [firsts]
  | append_singleton l a ih =>
    rw [forall_split_concat (P := Fresh key f), ← ih, firsts_concat, Fresh]
    by_cases ha : key a ∈ l.map key
    · rw [if_pos ha]
      simp only [ha, not_true, false_imp_iff, and_true]
    · rw [if_neg ha, List.map_append, List.map_singleton, List.nodup_append_comm,
        List.singleton_append, List.nodup_cons]
      tauto

/-- Numbers the elements that are the first with their key. -/
def numbered (key : α → ι) (mk : Nat → β) (l : List α) : List (ι × β) :=
  (firsts key l).mapIdx fun i a => (key a, mk i)

theorem numbered_concat (key : α → ι) (mk : Nat → β) (l : List α) (a : α) :
    numbered key mk (l ++ [a]) = if key a ∈ l.map key then numbered key mk l
      else numbered key mk l ++ [(key a, mk (firsts key l).length)] := by
  rw [numbered, firsts_concat]
  split
  · rfl
  · rw [List.mapIdx_concat, numbered]

theorem lookup_mapIdx (key : α → ι) (mk : Nat → β) (l : List α) (k : ι) :
    (l.mapIdx fun i a => (key a, mk i)).lookup k = (l.findIdx? (key · == k)).map mk := by
  induction l generalizing mk with
  | nil => rfl
  | cons a l ih =>
    rw [List.mapIdx_cons, List.findIdx?_cons]
    by_cases ha : key a = k
    · simp [ha]
    · have hk : (k == key a) = false := by simpa using Ne.symm ha
      have hbeq : (key a == k) = false := by simpa using ha
      rw [List.lookup_cons, hk, hbeq, ih fun i => mk (i + 1)]
      simp [Function.comp_def]

theorem isSome_lookup_numbered (key : α → ι) (mk : Nat → β) (l : List α) (k : ι) :
    ((numbered key mk l).lookup k).isSome ↔ k ∈ l.map key := by
  rw [numbered, lookup_mapIdx, Option.isSome_map, List.findIdx?_isSome, ← mem_keys_firsts,
    List.any_eq_true, List.mem_map]
  simp only [beq_iff_eq]

theorem lookup_numbered_eq_some (key : α → ι) (mk : Nat → β) (l : List α) (k : ι) (b : β) :
    (numbered key mk l).lookup k = some b ↔
      ∃ i a, (firsts key l)[i]? = some a ∧ key a = k ∧ mk i = b := by
  rw [numbered, lookup_mapIdx, Option.map_eq_some_iff]
  constructor
  · rintro ⟨i, hi, rfl⟩
    obtain ⟨hlt, hkey, _⟩ := List.findIdx?_eq_some_iff_getElem.mp hi
    exact ⟨i, _, List.getElem?_eq_getElem hlt, beq_iff_eq.mp hkey, rfl⟩
  · rintro ⟨i, a, ha, rfl, rfl⟩
    obtain ⟨hlt, rfl⟩ := List.getElem?_eq_some_iff.mp ha
    refine ⟨i, List.findIdx?_eq_some_iff_getElem.mpr ⟨hlt, beq_self_eq_true _, ?_⟩, rfl⟩
    intro j hj he
    have hji := index_eq_of_key_eq (nodup_keys_firsts key l)
      (List.getElem?_eq_getElem (Nat.lt_trans hj hlt)) ha (beq_iff_eq.mp he)
    omega

theorem lookup_numbered_append {key : α → ι} {mk : Nat → β} {l : List α} {k : ι} {b : β}
    (h : (numbered key mk l).lookup k = some b) (m : List α) :
    (numbered key mk (l ++ m)).lookup k = some b := by
  induction m using List.reverseRecOn with
  | nil => rwa [List.append_nil]
  | append_singleton m a ih =>
    rw [← List.append_assoc, numbered_concat]
    split
    · exact ih
    · rw [List.lookup_append, ih, Option.some_or]

end RpgLowering
