import RpgLowering.Document.Read
import RpgLowering.Source.Write
import RpgLowering.Proofs.Bind
import RpgLowering.Proofs.DocumentText

/-! What readers make of documents, said for one combinator after another: that a written document
is read back where there is room for its nesting and refused where there is not, and that a value
which was read needs no more room to be written. -/
namespace RpgLowering

/-- The step gives `a` if the condition holds, and fails if it does not. -/
structure OkIff {ε α : Type} (condition : Prop) (x : Except ε α) (a : α) : Prop where
  ok : condition → x = .ok a
  error : ¬ condition → ∃ e, x = .error e

namespace OkIff
variable {ε α β : Type} {P Q : Prop} {x : Except ε α} {a : α}

theorem of_ok (hp : P) (h : x = .ok a) : OkIff P x a where
  ok _ := h
  error hn := absurd hp hn

theorem congr (h : OkIff P x a) (hpq : P ↔ Q) : OkIff Q x a where
  ok hq := h.ok (hpq.mpr hq)
  error hn := h.error fun hp => hn (hpq.mp hp)

theorem bind (hx : OkIff P x a) {f : α → Except ε β} {b : β} (hf : OkIff Q (f a) b) :
    OkIff (P ∧ Q) (x >>= f) b where
  ok h := bind_eq_ok.mpr ⟨a, hx.ok h.1, hf.ok h.2⟩
  error hn := by
    by_cases hp : P
    · obtain ⟨e, he⟩ := hf.error fun hq => hn ⟨hp, hq⟩
      exact ⟨e, bind_eq_error.mpr (.inr ⟨a, hx.ok hp, he⟩)⟩
    · obtain ⟨e, he⟩ := hx.error hp
      exact ⟨e, bind_eq_error.mpr (.inl he)⟩

theorem map (hx : OkIff P x a) (f : α → β) : OkIff P (x.map f) (f a) where
  ok hp := by rw [hx.ok hp, Except.map]
  error hn := by
    obtain ⟨e, he⟩ := hx.error hn
    exact ⟨e, by rw [he, Except.map]⟩

end OkIff

namespace Document
variable {α β : Type} {room : Nat}

/-! ### Reading back -/

/-- The reader makes `a` of the document if its nesting fits into the room, and else refuses it. -/
def ReadsAt (room : Nat) (read : Reader α) (d : Document) (a : α) : Prop :=
  OkIff (d.depth ≤ room) (read d) a

theorem readsAt_of_ok {read : Reader α} {d : Document} {a : α} (hd : d.depth = 0)
    (h : read d = .ok a) : ReadsAt room read d a := .of_ok (by omega) h

theorem readsAt_of_okIff {P : Prop} {x : Except ReadError α} {a : α} (h : OkIff P x a)
    {read : Reader α} {d : Document} (hread : read d = x) (hdepth : P ↔ d.depth ≤ room) :
    ReadsAt room read d a := by
  subst hread
  exact h.congr hdepth

theorem exists_unreadable (d : Document) : ∃ e, (unreadable d : Except ReadError α) = .error e := by
  cases d with
  | string text => cases text <;> exact ⟨_, rfl⟩
  | _ => exact ⟨_, rfl⟩

theorem readsAt_inside {read : Nat → Reader α} {d : Document} {a : α} (hd : 0 < d.depth)
    (h : ∀ n, ReadsAt (n + 1) (read n) d a) : ReadsAt room (inside room read) d a := by
  cases room with
  | succ n => exact h n
  | zero => exact ⟨fun hle => by omega, fun _ => exists_unreadable d⟩

theorem ReadsAt.map {read : Reader α} {d : Document} {a : α} (h : ReadsAt room read d a)
    (f : α → β) : ReadsAt room (fun d => (read d).map f) d (f a) := OkIff.map h f

/-! #### Lists and options -/

theorem itemsDepth_le {n : Nat} (ds : List Document) :
    itemsDepth ds ≤ n ↔ ∀ d ∈ ds, d.depth ≤ n := by
  induction ds with
  | nil => simp [itemsDepth]
  | cons d ds ih => simp [itemsDepth, ih]

theorem membersDepth_le {n : Nat} (ms : List (Option String × Document)) :
    membersDepth ms ≤ n ↔ ∀ m ∈ ms, m.2.depth ≤ n := by
  induction ms with
  | nil => simp [membersDepth]
  | cons m ms ih =>
    obtain ⟨key, d⟩ := m
    simp [membersDepth, ih]

theorem okIff_mapM {read : Reader α} {f : α → Document} {as : List α}
    (h : ∀ a ∈ as, ReadsAt room read (f a) a) :
    OkIff (∀ a ∈ as, (f a).depth ≤ room) ((as.map f).mapM read) as := by
  induction as with
  | nil => exact .of_ok nofun rfl
  | cons a as ih =>
    have hfirst : OkIff ((f a).depth ≤ room) (read (f a)) a := h a List.mem_cons_self
    have hrest := ih fun b hb => h b (List.mem_cons_of_mem _ hb)
    have hcons : OkIff True (pure (a :: as) : Except ReadError (List α)) (a :: as) :=
      .of_ok trivial rfl
    rw [List.map_cons, List.mapM_cons]
    refine OkIff.congr (hfirst.bind (hrest.bind hcons)) ?_
    rw [and_true, List.forall_mem_cons]

theorem readsAt_items {read : Reader α} {f : α → Document} {as : List α}
    (h : ∀ a ∈ as, ReadsAt room read (f a) a) :
    ReadsAt (room + 1) (readItems read) (ofList f as) as := by
  refine readsAt_of_okIff (okIff_mapM h) rfl ?_
  rw [ofList, depth, Nat.succ_le_succ_iff, itemsDepth_le, List.forall_mem_map]

theorem readsAt_option {read : Reader α} {f : α → Document} (hnull : ∀ a, f a ≠ .null)
    {o : Option α} (h : ∀ a ∈ o, ReadsAt room read (f a) a) :
    ReadsAt room (readOption read) (ofOption f o) o := by
  cases o with
  | none => exact readsAt_of_ok rfl rfl
  | some a =>
    have hsome : readOption read (f a) = (read (f a)).map some := by
      have hne := hnull a
      generalize f a = d at hne
      cases d with
      | null => exact absurd rfl hne
      | _ =>
        simp only [readOption]
        cases read _ <;> rfl
    exact readsAt_of_okIff (OkIff.map (h a rfl) some) hsome .rfl

/-! #### Records -/

/-- A key of the record. -/
def Record.Knows (r : Record α) (key : String) : Prop := ∀ d draft, (r.member key d draft).isSome

/-- Collects members that the record knows. -/
def Record.gather (r : Record α) : r.Draft → List (String × Document) → Except ReadError r.Draft
  | draft, [] => .ok draft
  | draft, (key, d) :: ms =>
    match r.member key d draft with
    | some result => result >>= fun draft => r.gather draft ms
    | none => r.gather draft ms

theorem Record.ofMembers_eq_gather (r : Record α) (ms : List (String × Document))
    (hk : ∀ m ∈ ms, r.Knows m.1) (draft : r.Draft) :
    r.ofMembers draft (ms.map fun (key, d) => (some key, d)) = r.gather draft ms >>= r.close := by
  induction ms generalizing draft with
  | nil => rfl
  | cons m ms ih =>
    obtain ⟨key, d⟩ := m
    have hkey := hk (key, d) List.mem_cons_self d draft
    have htail := ih fun m hm => hk m (List.mem_cons_of_mem _ hm)
    obtain ⟨result, hresult⟩ := Option.isSome_iff_exists.mp hkey
    simp only [List.map_cons, Record.ofMembers, Record.gather, hresult]
    cases result with
    | error e => rfl
    | ok draft => exact htail draft

/-- The record knows the members and makes `a` of them, if their nesting fits into the room. -/
structure Record.Takes (r : Record α) (room : Nat) (ms : List (String × Document)) (a : α) :
    Prop where
  knows : ∀ m ∈ ms, r.Knows m.1
  result : OkIff (∀ m ∈ ms, m.2.depth ≤ room) (r.gather r.empty ms >>= r.close) a

section
variable {key : String} {absent atEnd : Option α} {read : Reader α} {d : Document} {a : α}

theorem Record.member_self (draft : Option α) :
    ((Record.field key absent atEnd read).member key d draft).isSome := by
  cases draft <;> simp [Record.field]

theorem Record.member_of_ne {k : String} (hk : k ≠ key) (draft : Option α) :
    (Record.field key absent atEnd read).member k d draft = none := if_neg hk

theorem takes_field (h : ReadsAt room read d a) :
    (Record.field key absent atEnd read).Takes room [(key, d)] a where
  knows m hm := by
    obtain rfl := List.mem_singleton.mp hm
    exact fun d draft => Record.member_self draft
  result := by
    have hgather : ((Record.field key absent atEnd read).gather none [(key, d)] >>=
        (Record.field key absent atEnd read).close) = read d := by
      simp only [Record.gather, Record.field, if_true]
      cases read d <;> rfl
    have hread : OkIff (d.depth ≤ room) (read d) a := h
    rw [← hgather] at hread
    exact hread.congr (by simp)

theorem takes_absent : (Record.field key (some a) atEnd read).Takes room [] a where
  knows := nofun
  result := .of_ok nofun rfl

theorem Record.gather_rest (s : Record β) (ns : List (String × Document))
    (hkey : ∀ m ∈ ns, m.1 ≠ key) (x : Option α) (y : s.Draft) :
    ((Record.field key absent atEnd read).and s).gather (x, y) ns =
      (s.gather y ns).map fun y => (x, y) := by
  induction ns generalizing y with
  | nil => rfl
  | cons m ns ih =>
    obtain ⟨k, d⟩ := m
    have hne : k ≠ key := hkey (k, d) List.mem_cons_self
    have htail := ih fun m hm => hkey m (List.mem_cons_of_mem _ hm)
    have hskip : (Record.field key absent atEnd read).member k d x = none := Record.member_of_ne hne x
    simp only [Record.gather, Record.and, hskip]
    cases s.member k d y with
    | none => exact htail y
    | some result =>
      cases result with
      | error e => rfl
      | ok y => exact htail y

/-- The first field is read from the first member, the others from the rest. -/
theorem takes_cons {s : Record β} {ns : List (String × Document)} {b : β}
    (h : ReadsAt room read d a) (hs : s.Takes room ns b) (hkey : ∀ m ∈ ns, m.1 ≠ key) :
    ((Record.field key absent atEnd read).and s).Takes room ((key, d) :: ns) (a, b) where
  knows m hm d' draft := by
    rcases List.mem_cons.mp hm with rfl | hrest
    · have hself : ((Record.field key absent atEnd read).member key d' draft.1).isSome :=
        Record.member_self draft.1
      obtain ⟨result, hresult⟩ := Option.isSome_iff_exists.mp hself
      simp [Record.and, hresult]
    · have hskip : (Record.field key absent atEnd read).member m.1 d' draft.1 = none :=
        Record.member_of_ne (hkey m hrest) draft.1
      obtain ⟨result, hresult⟩ := Option.isSome_iff_exists.mp (hs.knows m hrest d' draft.2)
      simp [Record.and, hskip, hresult]
  result := by
    have hgather : (((Record.field key absent atEnd read).and s).gather (none, s.empty)
        ((key, d) :: ns) >>= ((Record.field key absent atEnd read).and s).close) =
        read d >>= fun a => (s.gather s.empty ns >>= s.close).map fun b => (a, b) := by
      have hfirst : ((Record.field key absent atEnd read).and s).gather (none, s.empty)
          ((key, d) :: ns) = read d >>= fun a =>
            ((Record.field key absent atEnd read).and s).gather (some a, s.empty) ns := by
        simp only [Record.gather, Record.and, Record.field, if_true]
        cases read d <;> rfl
      rw [hfirst]
      cases read d with
      | error e => rfl
      | ok a =>
        have hrest : ((Record.field key absent atEnd read).and s).gather (some a, s.empty) ns =
            (s.gather s.empty ns).map fun y => (some a, y) :=
          Record.gather_rest s ns hkey (some a) s.empty
        have hok : ((Except.ok a : Except ReadError α) >>= fun a =>
            ((Record.field key absent atEnd read).and s).gather (some a, s.empty) ns) =
            (s.gather s.empty ns).map fun y => (some a, y) := hrest
        rw [hok]
        cases s.gather s.empty ns with
        | error e => rfl
        | ok y =>
          simp only [Except.map, bind, Except.bind, Record.and, Record.field]
    have hboth := OkIff.bind h
      (f := fun a => (s.gather s.empty ns >>= s.close).map fun b => (a, b))
      (hs.result.map fun b => (a, b))
    rw [← hgather] at hboth
    exact hboth.congr (by rw [List.forall_mem_cons])

end

theorem depth_ofMembers_le {n : Nat} {ms : List (String × Document)} :
    (ofMembers ms).depth ≤ n + 1 ↔ ∀ m ∈ ms, m.2.depth ≤ n := by
  rw [ofMembers, depth, Nat.succ_le_succ_iff, membersDepth_le, List.forall_mem_map]

theorem Record.Takes.readAs {r : Record α} {ms : List (String × Document)} {a : α}
    (h : r.Takes room ms a) (build : α → β) :
    ReadsAt (room + 1) (r.readAs build) (Document.ofMembers ms) (build a) := by
  have hread : r.read (Document.ofMembers ms) = r.gather r.empty ms >>= r.close :=
    r.ofMembers_eq_gather ms h.knows r.empty
  refine readsAt_of_okIff (h.result.map build) ?_ depth_ofMembers_le.symm
  rw [Record.readAs, hread]

theorem Record.Takes.read {r : Record α} {ms : List (String × Document)} {a : α}
    (h : r.Takes room ms a) : ReadsAt (room + 1) r.read (Document.ofMembers ms) a :=
  readsAt_of_okIff h.result (r.ofMembers_eq_gather ms h.knows r.empty) depth_ofMembers_le.symm

/-! #### Pairs and choices -/

theorem readsAt_pair {first : Reader α} {second : Reader β} {d d' : Document} {a : α} {b : β}
    (h : ReadsAt room first d a) (h' : ReadsAt room second d' b) :
    ReadsAt (room + 1) (readPair first second) (.array [d, d']) (a, b) := by
  have hread : readPair first second (.array [d, d']) =
      first d >>= fun a => (second d').map fun b => (a, b) := by
    simp only [readPair, Record.ofItems, Record.and, Record.required, Record.field]
    cases first d with
    | error e => rfl
    | ok a =>
      simp only [Except.map, bind, Except.bind]
      cases second d' <;> rfl
  have hboth := OkIff.bind h (f := fun a => (second d').map fun b => (a, b))
    (OkIff.map h' fun b => (a, b))
  exact readsAt_of_okIff hboth hread (by simp [depth, itemsDepth])

theorem readsAt_tagged {variants : List (Variant α)} {name : String} {read : Reader α}
    (hfind : variants.find? (·.name == name) = some (.holding name read)) {content : Document}
    {a : α} (h : ReadsAt room read content a) :
    ReadsAt (room + 1) (readChoice true variants) (tagged name content) a := by
  have hread : readChoice true variants (tagged name content) = read content := by
    simp only [tagged, ofMembers, List.map_cons, List.map_nil, readChoice, Variant.find, hfind,
      if_true]
    simp only [bind, Except.bind, Variant.ofContent]
    cases read content <;> rfl
  exact readsAt_of_okIff h hread (by simp [tagged, ofMembers, depth, membersDepth])

theorem readsAt_tagged_zero {variants : List (Variant α)} {name : String} {content : Document}
    {a : α} : ReadsAt 0 (readChoice false variants) (tagged name content) a :=
  ⟨fun h => by simp [tagged, ofMembers, depth] at h, fun _ => ⟨_, rfl⟩⟩

theorem readsAt_plain {variants : List (Variant α)} {name : String} {a : α}
    (hfind : variants.find? (·.name == name) = some (.plain name a)) {hasRoom : Bool} :
    ReadsAt room (readChoice hasRoom variants) (ofString name) a := by
  refine readsAt_of_ok rfl ?_
  simp only [ofString, readChoice, Variant.find, hfind]
  rfl

/-! ### What is read -/

/-- Whatever the reader accepts, its result has the property. -/
def Ensures (read : Reader α) (P : α → Prop) : Prop := ∀ d a, read d = .ok a → P a

theorem not_unreadable {d : Document} {a : α} : unreadable d ≠ .ok a := by
  obtain ⟨e, he⟩ := exists_unreadable (α := α) d
  rw [he]
  nofun

theorem ensures_unreadable {P : α → Prop} : Ensures unreadable P :=
  fun _ _ h => absurd h not_unreadable

theorem ensures_inside {read : Nat → Reader α} {P : Nat → α → Prop}
    (h : ∀ n, Ensures (read n) (P (n + 1))) : Ensures (inside room read) (P room) := by
  cases room with
  | zero => exact ensures_unreadable
  | succ n => exact h n

theorem Ensures.map {read : Reader α} {P : α → Prop} (h : Ensures read P) {f : α → β}
    {Q : β → Prop} (hf : ∀ a, P a → Q (f a)) : Ensures (fun d => (read d).map f) Q := by
  intro d b hb
  cases hr : read d with
  | error e => simp [hr, Except.map] at hb
  | ok a =>
    simp only [hr, Except.map, Except.ok.injEq] at hb
    exact hb ▸ hf a (h d a hr)

theorem ensures_items {read : Reader α} {P : α → Prop} (h : Ensures read P) :
    Ensures (readItems read) fun as => ∀ a ∈ as, P a := by
  intro d as has a ha
  cases d with
  | array ds =>
    obtain ⟨d, _, hd⟩ := exists_of_forall₂_right (mapM_eq_ok.mp has) ha
    exact h d a hd
  | string text => exact (not_unreadable has).elim
  | _ => cases has

theorem ensures_option {read : Reader α} {P : α → Prop} (h : Ensures read P) :
    Ensures (readOption read) fun o => ∀ a ∈ o, P a := by
  have hsome : ∀ d o, (read d >>= fun a => .ok (some a)) = .ok o → ∀ a ∈ o, P a := by
    intro d o ho
    obtain ⟨a, ha, ⟨⟩⟩ := bind_eq_ok.mp ho
    rintro _ ⟨⟩
    exact h d _ ha
  intro d o ho
  cases d with
  | null =>
    cases ho
    exact nofun
  | _ => exact hsome _ o ho

/-- Whatever the record accepts, its result has the property: the draft keeps what its fields
have. -/
def Record.Ensures (r : Record α) (P : α → Prop) : Prop :=
  ∃ Q : r.Draft → Prop, Q r.empty ∧
    (∀ key d x y, Q x → r.member key d x = some (.ok y) → Q y) ∧
    (∀ x a, Q x → r.close x = .ok a → P a) ∧
    ∀ ds a rest, r.items ds = .ok (a, rest) → P a

theorem ensures_field {key : String} {absent atEnd : Option α} {read : Reader α} {P : α → Prop}
    (h : Ensures read P) (habsent : ∀ a ∈ absent, P a) (hend : ∀ a ∈ atEnd, P a) :
    (Record.field key absent atEnd read).Ensures P := by
  have hmap : ∀ {γ : Type} (d : Document) (f : α → γ) c, (read d).map f = .ok c →
      ∃ a, P a ∧ f a = c := by
    intro γ d f c hc
    cases hr : read d with
    | error e => simp [hr, Except.map] at hc
    | ok a => exact ⟨a, h d a hr, by simpa [hr, Except.map] using hc⟩
  refine ⟨fun x : Option α => ∀ a ∈ x, P a, nofun, ?_, ?_, ?_⟩
  · intro k d x y hx hy
    simp only [Record.field] at hy
    split at hy
    · split at hy
      · simp at hy
      · obtain ⟨a, ha, rfl⟩ := hmap d some y (Option.some.inj hy)
        rintro _ ⟨⟩
        exact ha
    · cases hy
  · intro x a hx ha
    simp only [Record.field] at ha
    split at ha
    · cases ha
      exact hx _ rfl
    · cases ha
      exact habsent _ rfl
    · cases ha
  · intro ds a rest ha
    simp only [Record.field] at ha
    split at ha
    · obtain ⟨b, hb, heq⟩ := hmap _ _ _ ha
      cases heq
      exact hb
    · cases ha
      exact hend _ rfl
    · cases ha

theorem Record.Ensures.and {r : Record α} {s : Record β} {P : α → Prop} {Q : β → Prop}
    (hr : r.Ensures P) (hs : s.Ensures Q) : (r.and s).Ensures fun c => P c.1 ∧ Q c.2 := by
  obtain ⟨R, hempty, hmember, hclose, hitems⟩ := hr
  obtain ⟨S, hempty', hmember', hclose', hitems'⟩ := hs
  refine ⟨fun x => R x.1 ∧ S x.2, ⟨hempty, hempty'⟩, ?_, ?_, ?_⟩
  · intro key d x y hx hy
    simp only [Record.and] at hy
    split at hy
    · rename_i result hresult
      cases result with
      | error e => simp [Except.map] at hy
      | ok z =>
        obtain rfl := Except.ok.inj (Option.some.inj hy)
        exact ⟨hmember key d x.1 z hx.1 hresult, hx.2⟩
    · obtain ⟨result, hresult, hmap⟩ := Option.map_eq_some_iff.mp hy
      cases result with
      | error e => simp [Except.map] at hmap
      | ok z =>
        obtain rfl := Except.ok.inj hmap
        exact ⟨hx.1, hmember' key d x.2 z hx.2 hresult⟩
  · intro x c hx hc
    obtain ⟨a, ha, hc⟩ := bind_eq_ok.mp hc
    obtain ⟨b, hb, ⟨⟩⟩ := bind_eq_ok.mp hc
    exact ⟨hclose x.1 a hx.1 ha, hclose' x.2 b hx.2 hb⟩
  · intro ds c rest hc
    obtain ⟨⟨a, ds'⟩, ha, hc⟩ := bind_eq_ok.mp hc
    obtain ⟨⟨b, ds''⟩, hb, ⟨⟩⟩ := bind_eq_ok.mp hc
    exact ⟨hitems ds a ds' ha, hitems' ds' b _ hb⟩

theorem Record.Ensures.read {r : Record α} {P : α → Prop} (h : r.Ensures P) :
    Document.Ensures r.read P := by
  obtain ⟨Q, hempty, hmember, hclose, hitems⟩ := h
  have hmembers : ∀ ms x a, Q x → r.ofMembers x ms = .ok a → P a := by
    intro ms
    induction ms with
    | nil => exact hclose
    | cons m ms ih =>
      intro x a hx ha
      match m with
      | (none, d) => cases ha
      | (some key, d) =>
        simp only [Record.ofMembers] at ha
        split at ha
        · rename_i y hy
          exact ih y a (hmember key d x y hx hy) ha
        · cases ha
        · split at ha
          · exact ih x a hx ha
          · cases ha
  intro d a ha
  cases d with
  | object ms => exact hmembers ms r.empty a hempty ha
  | array ds =>
    obtain ⟨⟨b, rest⟩, hb, hrest⟩ := bind_eq_ok.mp ha
    simp only at hrest
    split at hrest
    · cases hrest
      exact hitems ds a rest hb
    · cases hrest
  | string text => exact (not_unreadable ha).elim
  | _ => cases ha

theorem Record.Ensures.readAs {r : Record α} {P : α → Prop} (h : r.Ensures P) {build : α → β}
    {Q : β → Prop} (hb : ∀ a, P a → Q (build a)) : Document.Ensures (r.readAs build) Q :=
  h.read.map hb

theorem ensures_pair {first : Reader α} {second : Reader β} {P : α → Prop} {Q : β → Prop}
    (h : Ensures first P) (h' : Ensures second Q) :
    Ensures (readPair first second) fun c => P c.1 ∧ Q c.2 := by
  have hrecord : ((Record.required "" first).and (Record.required "" second)).Ensures
      fun c => P c.1 ∧ Q c.2 :=
    (ensures_field h (by simp) (by simp)).and (ensures_field h' (by simp) (by simp))
  intro d c hc
  cases d with
  | array ds => exact hrecord.read (.array ds) c hc
  | string text => exact (not_unreadable hc).elim
  | _ => cases hc

theorem Variant.of_find {variants : List (Variant α)} {name : String} {v : Variant α}
    (h : Variant.find variants name = .ok v) : v ∈ variants := by
  unfold Variant.find at h
  split at h
  · cases h
    exact List.mem_of_find?_eq_some ‹_›
  · cases h

/-- The same for what a variant makes of its content; without room it has none. -/
def Variant.Ensures (hasRoom : Bool) (P : α → Prop) : Variant α → Prop
  | .plain _ a => P a
  | .holding _ read => hasRoom = true → Document.Ensures read P

theorem ensures_choice {variants : List (Variant α)} {P : α → Prop} {hasRoom : Bool}
    (h : ∀ v ∈ variants, v.Ensures hasRoom P) : Ensures (readChoice hasRoom variants) P := by
  intro d a ha
  unfold readChoice at ha
  split at ha
  · obtain ⟨v, hv, ha⟩ := bind_eq_ok.mp ha
    have hvariant := h v (Variant.of_find hv)
    cases v with
    | plain name b =>
      cases ha
      exact hvariant
    | holding name read => cases ha
  · split at ha
    · rename_i hroom
      obtain ⟨v, hv, ha⟩ := bind_eq_ok.mp ha
      obtain ⟨b, hb, ha⟩ := bind_eq_ok.mp ha
      have hvariant := h v (Variant.of_find hv)
      split at ha
      · cases ha
        cases v with
        | plain name b =>
          have hab : b = a := by
            unfold Variant.ofContent at hb
            split at hb
            · simp_all
            · exact (not_unreadable hb).elim
            · simp_all
          exact hab ▸ hvariant
        | holding name read => exact hvariant hroom _ a hb
      · cases ha
    · cases ha
  · cases ha

end Document

end RpgLowering
