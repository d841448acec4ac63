import RpgLowering.Core.Equality
import RpgLowering.Proofs.ListingRows
import RpgLowering.Proofs.PrintedStructure

/-! Listings identify programs. The rows of a program determine it; a listing first gives the names of
its globals and functions, and with these names its rows. -/
namespace RpgLowering.Core
open Text
open Target (cut_inj eq_of_map_eq render_eq_ok texts_of_indented)

/-! ### Rows of a program -/

mutual

/-- What the lines of a statement say. -/
def Stmt.rows : Stmt → List Row
  | .assign target value => [.assign target value]
  | .reset target => [.reset target]
  | .call f => [.call f]
  | .print value => [.print value]
  | .switch cases default? =>
    .switch :: (Stmt.caseRows cases ++ (Stmt.defaultRows default? ++ [.closing]))
  | .loop counter low high body => .loop counter low high :: (Stmt.rowsOf body ++ [.closing])

def Stmt.rowsOf : List Stmt → List Row
  | [] => []
  | s :: ss => s.rows ++ Stmt.rowsOf ss

def Stmt.caseRows : List (Expr × List Stmt) → List Row
  | [] => []
  | (condition, body) :: cases =>
    .case condition :: (Stmt.rowsOf body ++ .closing :: Stmt.caseRows cases)

def Stmt.defaultRows : Option (List Stmt) → List Row
  | none => []
  | some body => .otherwise :: (Stmt.rowsOf body ++ [.closing])

end

/-- What the lines of one case say. -/
def Stmt.rowsOfCase (case : Expr × List Stmt) : List Row :=
  .case case.1 :: (Stmt.rowsOf case.2 ++ [.closing])

theorem rowsOf_eq_flatMap (ss : List Stmt) : Stmt.rowsOf ss = ss.flatMap Stmt.rows := by
  induction ss with
  | nil => rfl
  | cons s ss ih => rw [Stmt.rowsOf, ih, List.flatMap_cons]

theorem caseRows_eq_flatMap (cases : List (Expr × List Stmt)) :
    Stmt.caseRows cases = cases.flatMap Stmt.rowsOfCase := by
  induction cases with
  | nil => rfl
  | cons case cases ih => simp [Stmt.caseRows, ih, Stmt.rowsOfCase]

def Function.rows (f : Function) : List Row :=
  .function f.name f.parameters :: (Stmt.rowsOf f.body ++ [.closing])

def Program.rows (p : Program) : List Row :=
  .program p.name :: (p.globals.map Row.global ++
    ((p.main :: p.functions).flatMap Function.rows ++ [.closing]))

section
variable (p : Program)

mutual

theorem texts_lines (s : Stmt) (level : Nat) :
    (s.lines p level).map (·.text) = s.rows.map (Row.text p) := by
  match s with
  | .assign .. | .reset _ | .call _ | .print _ => rfl
  | .switch cases default? =>
    simp [Stmt.lines, Stmt.rows, Row.text, texts_caseLines cases, texts_defaultLines default?]
  | .loop counter low high body => simp [Stmt.lines, Stmt.rows, Row.text, texts_linesOf body]

theorem texts_linesOf (ss : List Stmt) (level : Nat) :
    (Stmt.linesOf p level ss).map (·.text) = (Stmt.rowsOf ss).map (Row.text p) := by
  match ss with
  | [] => rfl
  | s :: ss => simp [Stmt.linesOf, Stmt.rowsOf, texts_lines s, texts_linesOf ss]

theorem texts_caseLines (cases : List (Expr × List Stmt)) (level : Nat) :
    (Stmt.caseLines p level cases).map (·.text) = (Stmt.caseRows cases).map (Row.text p) := by
  match cases with
  | [] => rfl
  | (c, body) :: cases =>
    simp [Stmt.caseLines, Stmt.caseRows, Row.text, texts_linesOf body, texts_caseLines cases]

theorem texts_defaultLines (default? : Option (List Stmt)) (level : Nat) :
    (Stmt.defaultLines p level default?).map (·.text) =
      (Stmt.defaultRows default?).map (Row.text p) := by
  match default? with
  | none => rfl
  | some body => simp [Stmt.defaultLines, Stmt.defaultRows, Row.text, texts_linesOf body]

end

/-- The texts of the lines are those of the rows. -/
theorem texts_programLines : (p.lines true).map (·.text) = p.rows.map (Row.text p) := by
  have hglobal : ∀ g : Global, (Global.line p true g).text = (Row.global g).text p := by
    intro g
    cases ho : g.initial <;> simp [Global.line, Row.text, initialText, ho, String.append_assoc]
  have hfunction : ∀ f : Function, (f.lines p true).map (·.text) = f.rows.map (Row.text p) := by
    intro f
    simp [Function.lines, Function.rows, Row.text, texts_linesOf, Target.commaSeparated]
  simp [Program.lines, Program.rows, Row.text, List.map_flatMap, hglobal, hfunction]

end

/-! ### Statements with the same rows -/

/-- The row begins a statement. -/
def Row.starts : Row → Bool
  | .assign .. | .reset _ | .call _ | .print _ | .switch | .loop .. => true
  | _ => false

theorem started_rows : Started Stmt.rows Row.starts := by
  intro s
  cases s <;> exact ⟨_, _, rfl, rfl⟩

theorem started_rowsOfCase : Started Stmt.rowsOfCase fun r => decide (r.kind = .case) :=
  fun _ => ⟨_, _, rfl, rfl⟩

theorem closed_defaultRows (default? : Option (List Stmt)) (rest : List Row) :
    Closed (fun r : Row => decide (r.kind = .case)) (Stmt.defaultRows default? ++ .closing :: rest) := by
  cases default? <;> exact closed_cons rfl _

abbrev Stmt.Decodes : Stmt → Prop := RpgLowering.Decodes Stmt.rows id

abbrev Stmt.AllDecode : List Stmt → Prop := RpgLowering.AllDecode Stmt.rows id Row.starts

abbrev Stmt.CasesDecode : List (Expr × List Stmt) → Prop :=
  RpgLowering.AllDecode Stmt.rowsOfCase id fun r => decide (r.kind = .case)

def Stmt.DefaultDecodes (default? : Option (List Stmt)) : Prop :=
  ∀ (default?' : Option (List Stmt)) (rest rest' : List Row),
    Stmt.defaultRows default? ++ .closing :: rest = Stmt.defaultRows default?' ++ .closing :: rest' →
      default? = default?' ∧ rest = rest'

/-- A body ends at its brace. -/
theorem body_inj {ss ts : List Stmt} (h : Stmt.AllDecode ss) {rest rest' : List Row}
    (heq : Stmt.rowsOf ss ++ .closing :: rest = Stmt.rowsOf ts ++ .closing :: rest') :
    ss = ts ∧ rest = rest' := by
  rw [rowsOf_eq_flatMap, rowsOf_eq_flatMap] at heq
  simpa only [List.map_id] using h.closing rfl heq

theorem decodes_case {case : Expr × List Stmt} (hbody : Stmt.AllDecode case.2) :
    RpgLowering.Decodes Stmt.rowsOfCase id case := by
  intro case' rest rest' h
  simp only [Stmt.rowsOfCase, List.cons_append, List.append_assoc, List.nil_append] at h
  obtain ⟨hrow, htail⟩ := List.cons.inj h
  obtain ⟨hstmts, hend⟩ := body_inj hbody htail
  exact ⟨Prod.ext (Row.case.inj hrow) hstmts, hend⟩

theorem defaultDecodes_none : Stmt.DefaultDecodes none := by
  intro default?' rest rest' h
  cases default?' with
  | none => exact ⟨rfl, (List.cons.inj h).2⟩
  | some body => cases (List.cons.inj h).1

theorem defaultDecodes_some {body : List Stmt} (hbody : Stmt.AllDecode body) :
    Stmt.DefaultDecodes (some body) := by
  intro default?' rest rest' h
  cases default?' with
  | none => cases (List.cons.inj h).1
  | some body' =>
    simp only [Stmt.defaultRows, List.cons_append, List.append_assoc, List.nil_append] at h
    obtain ⟨rfl, hend⟩ := body_inj hbody (List.cons.inj h).2
    exact ⟨rfl, (List.cons.inj hend).2⟩

theorem decodes_switch {cases : List (Expr × List Stmt)} {default? : Option (List Stmt)}
    (hcases : Stmt.CasesDecode cases) (hdefault : Stmt.DefaultDecodes default?) :
    (Stmt.switch cases default?).Decodes := by
  intro t rest rest' h
  cases t with
  | switch cases' default?' =>
    simp only [Stmt.rows, List.cons_append, List.append_assoc, List.nil_append,
      caseRows_eq_flatMap] at h
    obtain ⟨hsame, htail⟩ := hcases cases' _ _ (closed_defaultRows default? rest)
      (closed_defaultRows default?' rest') (List.cons.inj h).2
    obtain ⟨rfl, hend⟩ := hdefault default?' rest rest' htail
    rw [List.map_id, List.map_id] at hsame
    rw [hsame]
    exact ⟨rfl, hend⟩
  | _ => cases (List.cons.inj h).1

theorem decodes_loop (x : GlobalId) (low high : Expr) {body : List Stmt}
    (hbody : Stmt.AllDecode body) : (Stmt.loop x low high body).Decodes := by
  intro t rest rest' h
  cases t with
  | loop x' low' high' body' =>
    simp only [Stmt.rows, List.cons_append, List.append_assoc, List.nil_append] at h
    obtain ⟨hrow, htail⟩ := List.cons.inj h
    obtain ⟨rfl, rfl, rfl⟩ := Row.loop.inj hrow
    obtain ⟨rfl, hend⟩ := body_inj hbody htail
    exact ⟨rfl, hend⟩
  | _ => cases (List.cons.inj h).1

mutual

theorem decodes (s : Stmt) : s.Decodes := by
  match s with
  | .assign .. | .reset _ | .call _ | .print _ =>
    intro t rest rest' h
    cases t <;> simp_all [Stmt.rows]
  | .switch cases default? => exact decodes_switch (casesDecode cases) (defaultDecodes default?)
  | .loop x low high body => exact decodes_loop x low high (allDecode body)

theorem allDecode (ss : List Stmt) : Stmt.AllDecode ss := by
  match ss with
  | [] => exact started_rows.allDecode_nil
  | s :: ss => exact started_rows.allDecode_cons (decodes s) (allDecode ss)

theorem casesDecode (cases : List (Expr × List Stmt)) : Stmt.CasesDecode cases := by
  match cases with
  | [] => exact started_rowsOfCase.allDecode_nil
  | (c, body) :: cases =>
    exact started_rowsOfCase.allDecode_cons (decodes_case (allDecode body)) (casesDecode cases)

theorem defaultDecodes (default? : Option (List Stmt)) : Stmt.DefaultDecodes default? := by
  match default? with
  | none => exact defaultDecodes_none
  | some body => exact defaultDecodes_some (allDecode body)

end

/-! ### Programs with the same rows -/

theorem globals_inj {gs gs' : List Global} {rest rest' : List Row}
    (hrest : ∀ r ∈ rest.head?, r.kind ≠ .global) (hrest' : ∀ r ∈ rest'.head?, r.kind ≠ .global)
    (h : gs.map Row.global ++ rest = gs'.map Row.global ++ rest') : gs = gs' ∧ rest = rest' := by
  have hglobals : ∀ gs : List Global, ∀ r ∈ gs.map Row.global, decide (r.kind = .global) = true := by
    intro gs r hr
    obtain ⟨g, -, rfl⟩ := List.mem_map.mp hr
    rfl
  obtain ⟨hrows, hend⟩ := cut_inj (hglobals gs) (hglobals gs')
    (fun r hr => decide_eq_false (hrest r hr)) (fun r hr => decide_eq_false (hrest' r hr)) h
  exact ⟨(List.map_inj_right fun _ _ => Row.global.inj).mp hrows, hend⟩

theorem decodes_function (f : Function) : RpgLowering.Decodes Function.rows id f := by
  intro f' rest rest' h
  simp only [Function.rows, List.cons_append, List.append_assoc, List.nil_append] at h
  obtain ⟨hrow, htail⟩ := List.cons.inj h
  obtain ⟨hname, hparameters⟩ := Row.function.inj hrow
  obtain ⟨hbody, hend⟩ := body_inj (allDecode f.body) htail
  cases f
  cases f'
  simp_all

theorem functions_inj {fs fs' : List Function}
    (h : fs.flatMap Function.rows ++ [.closing] = fs'.flatMap Function.rows ++ [.closing]) :
    fs = fs' := by
  have hstarted : Started Function.rows fun r => decide (r.kind = .function) :=
    fun _ => ⟨_, _, rfl, rfl⟩
  simpa only [List.map_id] using ((hstarted.allDecode decodes_function fs).closing rfl h).1

theorem eq_of_rows {p q : Program} (h : p.rows = q.rows) : p = q := by
  have hmore : ∀ p : Program, ∀ r ∈
      ((p.main :: p.functions).flatMap Function.rows ++ [Row.closing]).head?, r.kind ≠ .global := by
    intro p
    simp [Function.rows, Row.kind]
  obtain ⟨hrow, htail⟩ := List.cons.inj h
  obtain ⟨hglobals, hrest⟩ := globals_inj (hmore p) (hmore q) htail
  obtain ⟨hmain, hfunctions⟩ := List.cons.inj (functions_inj hrest)
  have hname := Row.program.inj hrow
  cases p
  cases q
  simp_all

/-! ### Readable programs -/

mutual

/-- Decimal numbers are finite. -/
def Stmt.Finite : Stmt → Prop
  | .assign _ e | .print e => e.Finite
  | .reset _ | .call _ => True
  | .switch cases default? => Stmt.CasesFinite cases ∧ Stmt.DefaultFinite default?
  | .loop _ low high body => low.Finite ∧ high.Finite ∧ Stmt.AllFinite body

def Stmt.AllFinite : List Stmt → Prop
  | [] => True
  | s :: ss => s.Finite ∧ Stmt.AllFinite ss

def Stmt.CasesFinite : List (Expr × List Stmt) → Prop
  | [] => True
  | (condition, body) :: cases =>
    condition.Finite ∧ Stmt.AllFinite body ∧ Stmt.CasesFinite cases

def Stmt.DefaultFinite : Option (List Stmt) → Prop
  | none => True
  | some body => Stmt.AllFinite body

end

/-- Names are identifiers, those of globals and those of functions are different, and decimal numbers
are finite. References need not be valid. -/
structure Program.Listable (A : Alphabet) (p : Program) : Prop where
  name : A.Identifier p.name
  globals : ∀ g ∈ p.globals, A.Identifier g.name ∧ ∀ e ∈ g.initial, e.Finite
  functions : ∀ f ∈ p.main :: p.functions, A.Identifier f.name ∧
    (∀ x ∈ f.parameters, A.Identifier x.name) ∧ Stmt.AllFinite f.body
  distinctGlobals : (p.globals.map (·.name)).Nodup
  distinctFunctions : (p.functions.map (·.name)).Nodup

section
variable {A : Alphabet} {p q : Program}

theorem Program.Listable.legible (h : p.Listable A) : p.Legible A := by
  refine ⟨⟨?_, h.distinctGlobals⟩, ⟨?_, h.distinctFunctions⟩⟩
  · intro n hn
    obtain ⟨g, hg, rfl⟩ := List.mem_map.mp hn
    exact (h.globals g hg).1
  · intro n hn
    obtain ⟨f, hf, rfl⟩ := List.mem_map.mp hn
    exact (h.functions f (List.mem_cons_of_mem _ hf)).1

/-- A row of a body: it is readable and declares nothing. -/
structure Row.Inner (A : Alphabet) (r : Row) : Prop where
  readable : r.Readable A
  noGlobal : r.globalName? = none
  noFunction : r.functionName? = none

theorem inner_closing : Row.closing.Inner A := ⟨trivial, rfl, rfl⟩

mutual

theorem inner_rows (s : Stmt) (hs : s.Finite) : ∀ r ∈ s.rows, r.Inner A := by
  match s with
  | .assign .. | .reset _ | .call _ | .print _ =>
    intro r hr
    rw [List.mem_singleton.mp hr]
    exact ⟨hs, rfl, rfl⟩
  | .switch cases default? =>
    have hcases := inner_caseRows cases hs.1
    have hdefault := inner_defaultRows default? hs.2
    have hswitch : Row.switch.Inner A := ⟨trivial, rfl, rfl⟩
    simp only [Stmt.rows, List.forall_mem_cons, List.forall_mem_append]
    exact ⟨hswitch, hcases, hdefault, inner_closing, nofun⟩
  | .loop x low high body =>
    have hbody := inner_rowsOf body hs.2.2
    have hloop : (Row.loop x low high).Inner A := ⟨⟨hs.1, hs.2.1⟩, rfl, rfl⟩
    simp only [Stmt.rows, List.forall_mem_cons, List.forall_mem_append]
    exact ⟨hloop, hbody, inner_closing, nofun⟩

theorem inner_rowsOf (ss : List Stmt) (hss : Stmt.AllFinite ss) :
    ∀ r ∈ Stmt.rowsOf ss, r.Inner A := by
  match ss with
  | [] => exact nofun
  | s :: ss => exact List.forall_mem_append.mpr ⟨inner_rows s hss.1, inner_rowsOf ss hss.2⟩

theorem inner_caseRows (cases : List (Expr × List Stmt)) (hcases : Stmt.CasesFinite cases) :
    ∀ r ∈ Stmt.caseRows cases, r.Inner A := by
  match cases with
  | [] => exact nofun
  | (c, body) :: cases =>
    have hbody := inner_rowsOf body hcases.2.1
    have hmore := inner_caseRows cases hcases.2.2
    have hcase : (Row.case c).Inner A := ⟨hcases.1, rfl, rfl⟩
    simp only [Stmt.caseRows, List.forall_mem_cons, List.forall_mem_append]
    exact ⟨hcase, hbody, inner_closing, hmore⟩

theorem inner_defaultRows (default? : Option (List Stmt)) (h : Stmt.DefaultFinite default?) :
    ∀ r ∈ Stmt.defaultRows default?, r.Inner A := by
  match default? with
  | none => exact nofun
  | some body =>
    have hbody := inner_rowsOf body h
    have hotherwise : Row.otherwise.Inner A := ⟨trivial, rfl, rfl⟩
    simp only [Stmt.defaultRows, List.forall_mem_cons, List.forall_mem_append]
    exact ⟨hotherwise, hbody, inner_closing, nofun⟩

end

theorem readable_rows (h : p.Listable A) : ∀ r ∈ p.rows, r.Readable A := by
  have hfunction : ∀ f ∈ p.main :: p.functions, ∀ r ∈ f.rows, r.Readable A := by
    intro f hf
    obtain ⟨hname, hparameters, hbody⟩ := h.functions f hf
    simp only [Function.rows, List.forall_mem_cons, List.forall_mem_append]
    refine ⟨⟨hname, hparameters⟩, ?_, trivial, nofun⟩
    intro r hr
    exact (inner_rowsOf f.body hbody r hr).readable
  simp only [Program.rows, List.forall_mem_cons, List.forall_mem_append, List.forall_mem_map]
  refine ⟨h.name, h.globals, ?_, trivial, nofun⟩
  intro r hr
  obtain ⟨f, hf, hmem⟩ := List.mem_flatMap.mp hr
  exact hfunction f hf r hmem

/-- The names that the rows of a program declare. -/
theorem declared_names (h : p.Listable A) :
    p.rows.filterMap Row.globalName? = p.globals.map (·.name) ∧
      p.rows.filterMap Row.functionName? = (p.main :: p.functions).map (·.name) := by
  have hfunction : ∀ f ∈ p.main :: p.functions,
      f.rows.filterMap Row.globalName? = [] ∧ f.rows.filterMap Row.functionName? = [f.name] := by
    intro f hf
    have hinner := inner_rowsOf (A := A) f.body (h.functions f hf).2.2
    have hglobal : (Stmt.rowsOf f.body).filterMap Row.globalName? = [] :=
      List.filterMap_eq_nil_iff.mpr fun r hr => (hinner r hr).noGlobal
    have hfunction : (Stmt.rowsOf f.body).filterMap Row.functionName? = [] :=
      List.filterMap_eq_nil_iff.mpr fun r hr => (hinner r hr).noFunction
    simp only [Function.rows, List.filterMap_cons, List.filterMap_append, hglobal, hfunction]
    exact ⟨rfl, rfl⟩
  have hfunctions : ∀ fs ⊆ p.main :: p.functions,
      (fs.flatMap Function.rows).filterMap Row.globalName? = [] ∧
        (fs.flatMap Function.rows).filterMap Row.functionName? = fs.map (·.name) := by
    intro fs hfs
    induction fs with
    | nil => exact ⟨rfl, rfl⟩
    | cons f fs ih =>
      have hf := hfunction f (hfs List.mem_cons_self)
      have hmore := ih (List.subset_of_cons_subset hfs)
      simp [hf, hmore]
  obtain ⟨hglobal, hnames⟩ := hfunctions _ (List.Subset.refl _)
  have hdeclared : (p.globals.map Row.global).filterMap Row.globalName? = p.globals.map (·.name) ∧
      (p.globals.map Row.global).filterMap Row.functionName? = [] := by
    simp [List.filterMap_map, Function.comp_def, Row.globalName?, Row.functionName?]
  simp only [Program.rows, List.filterMap_cons, List.filterMap_append, hglobal, hnames, hdeclared]
  simp [Row.globalName?, Row.functionName?]

/-! ### Listings -/

/-- What the rows of two programs declare, told from their texts. -/
theorem filterMap_eq_of_texts (hp : p.Legible A) (hq : q.Legible A) {rs rs' : List Row}
    (hrs : ∀ r ∈ rs, r.Readable A) (hrs' : ∀ r ∈ rs', r.Readable A)
    (h : rs.map (Row.text p) = rs'.map (Row.text q)) :
    rs.filterMap Row.globalName? = rs'.filterMap Row.globalName? ∧
      rs.filterMap Row.functionName? = rs'.filterMap Row.functionName? := by
  induction rs generalizing rs' with
  | nil =>
    rw [List.map_eq_nil_iff.mp h.symm]
    exact ⟨rfl, rfl⟩
  | cons r rs ih =>
    cases rs' with
    | nil => cases h
    | cons r' rs' =>
      obtain ⟨hfirst, hmore⟩ := List.cons.inj h
      rw [List.forall_mem_cons] at hrs hrs'
      obtain ⟨hglobal, hfunction⟩ := declared_eq hp hq hrs.1 hrs'.1 hfirst
      obtain ⟨hglobals, hfunctions⟩ := ih hrs.2 hrs'.2 hmore
      simp only [List.filterMap_cons, hglobal, hfunction, hglobals, hfunctions, and_self]

theorem text_congr (h : p.globals.map (·.name) = q.globals.map (·.name)) (e : Expr) :
    e.text p = e.text q := by
  induction e with
  | global id => rw [Expr.text, Expr.text, globalText_eq, globalText_eq, h]
  | _ => simp_all [Expr.text]

/-- The text of a row depends on the names only. -/
theorem rowText_congr (hglobals : p.globals.map (·.name) = q.globals.map (·.name))
    (hfunctions : p.functions.map (·.name) = q.functions.map (·.name)) (r : Row) :
    r.text p = r.text q := by
  have hexpr := text_congr hglobals
  have hglobal : ∀ id, p.globalText id = q.globalText id := by
    intro id
    rw [globalText_eq, globalText_eq, hglobals]
  have hfunction : ∀ id, p.functionText id = q.functionText id := by
    intro id
    rw [functionText_eq, functionText_eq, hfunctions]
  have hinitial : ∀ o, initialText p o = initialText q o := by
    intro o
    cases o <;> simp [initialText, hexpr]
  cases r <;> simp [Row.text, hexpr, hglobal, hfunction, hinitial]

theorem eq_of_texts (hp : p.Listable A) (hq : q.Listable A)
    (h : p.rows.map (Row.text p) = q.rows.map (Row.text q)) : p = q := by
  have hreadable := readable_rows hp
  have hreadable' := readable_rows hq
  obtain ⟨hglobals, hfunctions⟩ := filterMap_eq_of_texts hp.legible hq.legible hreadable hreadable' h
  rw [(declared_names hp).1, (declared_names hq).1] at hglobals
  rw [(declared_names hp).2, (declared_names hq).2] at hfunctions
  have hcongr : ∀ r ∈ q.rows, r.text q = r.text p :=
    fun r _ => (rowText_congr hglobals (List.cons.inj hfunctions).2 r).symm
  rw [List.map_congr_left hcongr] at h
  exact eq_of_rows (eq_of_map_eq (fun r r' => Row.eq_of_text hp.legible) hreadable hreadable' h)

theorem inline_lines (h : p.Listable A) :
    ∀ l ∈ p.lines true, Target.Inline l.text.toList ∨ l.text = "" := by
  intro l hl
  have hmem : l.text ∈ p.rows.map (Row.text p) := by
    rw [← texts_programLines]
    exact List.mem_map_of_mem hl
  obtain ⟨r, hr, htext⟩ := List.mem_map.mp hmem
  rw [← htext]
  exact .inl (inline_row h.legible (readable_rows h r hr))

end

/-! ### Equality of programs -/

theorem same_self_expr {e : Expr} (he : e.Finite) : e.same e = true := by
  induction e with
  | decimal x =>
    have hfinite : x.isFinite = true := he
    have hexponent : x.exponentField ≠ 2047 := by simpa [Binary64.isFinite] using hfinite
    simp [Expr.same, Binary64.sameNumber, Binary64.isNaN, hexponent]
  | parse e ih => exact ih he
  | format e ih => exact ih he
  | concat l r ihl ihr => simp [Expr.same, ihl he.1, ihr he.2]
  | sum l r ihl ihr => simp [Expr.same, ihl he.1, ihr he.2]
  | equal l r ihl ihr => simp [Expr.same, ihl he.1, ihr he.2]
  | _ => simp [Expr.same]

mutual

theorem same_self (s : Stmt) (hs : s.Finite) : s.same s = true := by
  match s with
  | .assign _ e => simp [Stmt.same, same_self_expr hs]
  | .reset _ => simp [Stmt.same]
  | .call _ => simp [Stmt.same]
  | .print e => simp [Stmt.same, same_self_expr hs]
  | .switch cases default? =>
    simp [Stmt.same, sameCases_self cases hs.1, sameDefault_self default? hs.2]
  | .loop _ low high body =>
    simp [Stmt.same, same_self_expr hs.1, same_self_expr hs.2.1, sameAll_self body hs.2.2]

theorem sameAll_self (ss : List Stmt) (hss : Stmt.AllFinite ss) : Stmt.sameAll ss ss = true := by
  match ss with
  | [] => simp [Stmt.sameAll]
  | s :: ss => simp [Stmt.sameAll, same_self s hss.1, sameAll_self ss hss.2]

theorem sameCases_self (cases : List (Expr × List Stmt)) (h : Stmt.CasesFinite cases) :
    Stmt.sameCases cases cases = true := by
  match cases with
  | [] => simp [Stmt.sameCases]
  | (c, body) :: cases =>
    simp [Stmt.sameCases, same_self_expr h.1, sameAll_self body h.2.1, sameCases_self cases h.2.2]

theorem sameDefault_self (default? : Option (List Stmt)) (h : Stmt.DefaultFinite default?) :
    Stmt.sameDefault default? default? = true := by
  match default? with
  | none => simp [Stmt.sameDefault]
  | some body => simp [Stmt.sameDefault, sameAll_self body h]

end

theorem isEqv_self {α : Type} {l : List α} {r : α → α → Bool} (h : ∀ a ∈ l, r a a = true) :
    l.isEqv l r = true := by
  induction l with
  | nil => rfl
  | cons a l ih =>
    rw [List.forall_mem_cons] at h
    simp [List.isEqv, h.1, ih h.2]

theorem same_self_program {A : Alphabet} {p : Program} (h : p.Listable A) : p.same p = true := by
  have hglobals : p.globals.isEqv p.globals Global.same = true := by
    apply isEqv_self
    intro g hg
    have hinitial : g.initial.toList.isEqv g.initial.toList Expr.same = true :=
      isEqv_self fun e he => same_self_expr ((h.globals g hg).2 e (Option.mem_toList.mp he))
    simp [Global.same, hinitial]
  have hfunction : ∀ f ∈ p.main :: p.functions, f.same f = true := by
    intro f hf
    simp [Function.same, sameAll_self f.body (h.functions f hf).2.2]
  have hfunctions : p.functions.isEqv p.functions Function.same = true :=
    isEqv_self fun f hf => hfunction f (List.mem_cons_of_mem _ hf)
  simp [Program.same, hglobals, hfunction p.main List.mem_cons_self, hfunctions]

/-- A listing with types identifies the program, also where references are shown by index. -/
theorem dump_identifies {A : Alphabet} {p q : Program} (hp : p.Listable A) (hq : q.Listable A)
    {indent : Nat} {a b : String} (ha : p.dump indent true = .ok a) (hb : q.dump indent true = .ok b)
    (h : a = b) : p = q ∧ p.same q = true := by
  rw [← render_eq_ok ha, ← render_eq_ok hb] at h
  have htexts := texts_of_indented (inline_lines hp) (inline_lines hq) h
  rw [texts_programLines, texts_programLines] at htexts
  have hpq := eq_of_texts hp hq htexts
  subst hpq
  exact ⟨rfl, same_self_program hp⟩

/-- A program with names that are words of the listing, and with references to nothing. -/
def wordsProgram (default? : Option (List Stmt)) : Program where
  name := "global"
  globals := [
    { name := "int", ty := .decimal, initial := some (.decimal ⟨0xBFF8000000000000⟩) },
    { name := "print", ty := .string }]
  main := {
    name := "case"
    parameters := [{ name := "int", ty := .decimal }]
    body := [
      .switch [(.equal (.parse (.global ⟨1⟩)) (.global ⟨7⟩), [.assign ⟨1⟩ (.string "\x7d")])]
        default?,
      .loop ⟨0⟩ (.integer (-1)) (.global ⟨0⟩) [.call ⟨0⟩, .reset ⟨2⟩]] }
  functions := [{ name := "fn", body := [.call ⟨1⟩, .print (.format (.global ⟨0⟩))] }]

theorem listable_wordsProgram {default? : Option (List Stmt)} (h : Stmt.DefaultFinite default?) :
    (wordsProgram default?).Listable .ascii := by
  have hnames : ∀ n ∈ ["global", "int", "print", "case", "fn"], Alphabet.ascii.Identifier n := by
    decide +kernel
  have hint := hnames "int" (by decide)
  have hfinite : (Expr.decimal ⟨0xBFF8000000000000⟩).Finite := by
    show Binary64.isFinite _ = true
    decide
  refine ⟨hnames "global" (by decide), ?_, ?_, by simp [wordsProgram], by simp [wordsProgram]⟩
  · simp only [wordsProgram, List.forall_mem_cons]
    refine ⟨⟨hint, ?_⟩, ⟨hnames "print" (by decide), nofun⟩, nofun⟩
    rintro e ⟨⟩
    exact hfinite
  · simp only [wordsProgram, List.forall_mem_cons]
    refine ⟨⟨hnames "case" (by decide), ⟨hint, nofun⟩, ?_⟩, ⟨hnames "fn" (by decide), nofun, ?_⟩,
      nofun⟩
    · exact ⟨⟨⟨⟨trivial, trivial⟩, ⟨trivial, trivial⟩, trivial⟩, h⟩,
        ⟨trivial, trivial, trivial, trivial, trivial⟩, trivial⟩
    · exact ⟨trivial, trivial, trivial⟩

/-- An `else` without statements is not a missing one. -/
theorem dump_empty_else : ∃ empty missing,
    (wordsProgram (some [])).dump 2 true = .ok empty ∧
      (wordsProgram none).dump 2 true = .ok missing ∧ empty ≠ missing := by
  have hempty : (wordsProgram (some [])).dump 2 true = .ok _ := rfl
  have hmissing : (wordsProgram none).dump 2 true = .ok _ := rfl
  refine ⟨_, _, hempty, hmissing, ?_⟩
  intro heq
  have hlistable : (wordsProgram (some [])).Listable .ascii := listable_wordsProgram trivial
  have hlistable' : (wordsProgram none).Listable .ascii := listable_wordsProgram trivial
  cases (dump_identifies hlistable hlistable' hempty hmissing heq).1

end RpgLowering.Core
