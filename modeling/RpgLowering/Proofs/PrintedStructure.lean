import RpgLowering.Proofs.Nesting
import Mathlib.Data.List.Forall2

/-! Printed classes keep their structure: two files have one text exactly if they are equal up to the
braces around bodies and the two ways of writing a dotted name. -/
namespace RpgLowering.Target
open Text

/-! ### Levels -/

/-- How many levels a line closes before it is printed. -/
def Row.closes : Row → Nat
  | .closing | .chained _ | .otherwise => 1
  | _ => 0

/-- How many levels a line opens for those behind it. -/
def Row.opens : Row → Nat
  | .classHead .. | .methodHead .. | .opening | .branch _ | .chained _ | .otherwise | .loop .. => 1
  | _ => 0

/-- Rows as lines: the level of a line is the number of braces that are open. -/
def levelled (level : Nat) : List Row → List Line
  | [] => []
  | .blank :: rs => Line.blank :: levelled level rs
  | r :: rs => ⟨level - r.closes, r.text⟩ :: levelled (level - r.closes + r.opens) rs

theorem texts_levelled (level : Nat) (rs : List Row) :
    (levelled level rs).map (·.text) = rs.map Row.text := by
  induction rs generalizing level with
  | nil => rfl
  | cons r rs ih => cases r <;> simp [levelled, ih, Line.blank, Row.text]

theorem levelled_closing (level : Nat) (rest : List Row) :
    levelled (level + 1) (.closing :: rest) = ⟨level, "\x7d"⟩ :: levelled level rest := rfl

theorem levelled_branch (level : Nat) (c : Expr) (rest : List Row) :
    levelled level (.branch c.qualified :: rest) =
      ⟨level, "if (" ++ c.text ++ ") \x7b"⟩ :: levelled (level + 1) rest := by
  rw [← text_qualified c]
  rfl

theorem levelled_chained (level : Nat) (c : Expr) (rest : List Row) :
    levelled (level + 1) (.chained c.qualified :: rest) =
      ⟨level, "\x7d else if (" ++ c.text ++ ") \x7b"⟩ :: levelled (level + 1) rest := by
  rw [← text_qualified c]
  rfl

theorem testText_eq (test : Option Expr) :
    commaSeparated (Expr.texts (test.map Expr.qualified).toList) = (test.map Expr.text).getD "" := by
  cases test with
  | none => rfl
  | some e => exact text_qualified e

theorem levelled_loop (level : Nat) (init : List Expr) (test : Option Expr) (update : List Expr)
    (rest : List Row) :
    levelled level (.loop (Expr.qualifiedAll init) (test.map Expr.qualified)
      (Expr.qualifiedAll update) :: rest) =
      ⟨level, "for (" ++ commaSeparated (init.map Expr.text) ++ "; " ++
        (test.map Expr.text).getD "" ++ "; " ++ commaSeparated (update.map Expr.text) ++ ") \x7b"⟩ ::
        levelled (level + 1) rest := by
  rw [← Expr.texts_eq_map, ← Expr.texts_eq_map, ← texts_qualified init, ← texts_qualified update,
    ← testText_eq]
  rfl

theorem levelled_otherwise {s : Stmt} (hs : s.isBranch = false) {level : Nat}
    (h : ∀ rest, levelled (level + 1) (s.rows .braced ++ rest) =
      s.lines (level + 1) .braced ++ levelled (level + 1) rest) (rest : List Row) :
    levelled (level + 1) (Stmt.elseRows (some s) ++ rest) =
      Stmt.elseLines level (some s) ++ levelled level rest := by
  have hinside := h (.closing :: rest)
  rw [levelled_closing] at hinside
  simpa [Stmt.elseRows, Stmt.elseLines, hs, levelled, Row.closes, Row.opens, Row.text] using hinside

mutual

theorem levelled_rows (s : Stmt) (level : Nat) (place : Place) (hplace : place ≠ .chained)
    (rest : List Row) :
    levelled level (s.rows place ++ rest) = s.lines level place ++ levelled level rest := by
  match s with
  | .expr e =>
    rw [Stmt.rows, Stmt.lines, ← text_qualified e]
    rfl
  | .block ss =>
    cases place with
    | chained => exact absurd rfl hplace
    | braced => exact levelled_rowsOf ss level rest
    | listed =>
      have hinside := levelled_rowsOf ss (level + 1) (.closing :: rest)
      rw [levelled_closing] at hinside
      rw [rows_block]
      simpa [Stmt.lines, levelled, Row.closes, Row.opens, Row.text] using hinside
  | .branch c t e =>
    have hlead : place.lead ++ "if (" = "if (" ∧
        (Stmt.branch c t e).rows place = (Stmt.branch c t e).rows .listed := by
      cases place with
      | chained => exact absurd rfl hplace
      | _ => exact ⟨rfl, rfl⟩
    rw [hlead.2, rows_branch, levelled_branch, ← rows_braced,
      levelled_rows t (level + 1) .braced nofun, levelled_elseRows e, Stmt.lines, hlead.1]
    simp
  | .loop init test update t =>
    rw [Stmt.rows, Stmt.lines, List.cons_append, levelled_loop, List.append_assoc,
      levelled_rows t (level + 1) .braced nofun, List.singleton_append, levelled_closing]
    simp

theorem levelled_elseRows (e : Option Stmt) (level : Nat) (rest : List Row) :
    levelled (level + 1) (Stmt.elseRows e ++ rest) =
      Stmt.elseLines level e ++ levelled level rest := by
  match e with
  | none => rfl
  | some (.branch c t e) =>
    have hlead : Place.chained.lead ++ "if (" = "\x7d else if (" := rfl
    have hlines : Stmt.elseLines level (some (.branch c t e)) =
        ⟨level, "\x7d else if (" ++ c.text ++ ") \x7b"⟩ ::
          (t.lines (level + 1) .braced ++ Stmt.elseLines level e) := by
      have hbranch : (Stmt.branch c t e).isBranch = true := rfl
      rw [Stmt.elseLines, if_pos hbranch, Stmt.lines, hlead]
    rw [elseRows_branch, levelled_chained, ← rows_braced, levelled_rows t (level + 1) .braced nofun,
      levelled_elseRows e, hlines]
    simp
  | some (.expr a) =>
    exact levelled_otherwise rfl (levelled_rows (.expr a) (level + 1) .braced nofun) rest
  | some (.block ss) =>
    exact levelled_otherwise rfl (levelled_rows (.block ss) (level + 1) .braced nofun) rest
  | some (.loop init test update t) =>
    exact levelled_otherwise rfl
      (levelled_rows (.loop init test update t) (level + 1) .braced nofun) rest

theorem levelled_rowsOf (ss : List Stmt) (level : Nat) (rest : List Row) :
    levelled level (Stmt.rowsOf ss ++ rest) = Stmt.linesOf level ss ++ levelled level rest := by
  match ss with
  | [] => rfl
  | s :: ss =>
    rw [Stmt.rowsOf, Stmt.linesOf, List.append_assoc, levelled_rows s level .listed nofun,
      levelled_rowsOf ss, List.append_assoc]

end

/-! ### Members and classes -/

def Field.normal (f : Field) : Field := { f with initializer := f.initializer.map Expr.qualified }

def Method.normal (m : Method) : Method := { m with body := Stmt.normalAll m.body }

def Class.normal (c : Class) : Class :=
  { c with fields := c.fields.map Field.normal, methods := c.methods.map Method.normal }

/-- The file with blocks for all branches and bodies, and dotted names for chains of names. -/
def SourceFile.normal (f : SourceFile) : SourceFile := ⟨f.classes.map Class.normal⟩

def Field.row (f : Field) : Row := .field f.normal

def Method.rows (m : Method) : List Row :=
  .methodHead m.modifiers m.returns m.name m.parameters :: (Stmt.rowsOf m.body ++ [.closing])

/-- Joins groups of rows, with a blank one between two of them. -/
def joined : List (List Row) → List Row
  | [] => []
  | [g] => g
  | g :: gs => g ++ .blank :: joined gs

def Class.rows (c : Class) : List Row :=
  .classHead c.modifiers c.name ::
    (joined ((if c.fields.isEmpty then [] else [c.fields.map Field.row]) ++
      c.methods.map Method.rows) ++ [.closing])

def SourceFile.rows (f : SourceFile) : List Row := joined (f.classes.map Class.rows)

theorem levelled_joined {level : Nat} {gs : List (List Row)} {ls : List (List Line)}
    (h : List.Forall₂ (fun g l => ∀ rest, levelled level (g ++ rest) = l ++ levelled level rest) gs ls)
    (rest : List Row) : levelled level (joined gs ++ rest) = spaced ls ++ levelled level rest := by
  induction h with
  | nil => rfl
  | cons hg htail ih =>
    cases htail with
    | nil => exact hg rest
    | cons hg' htail' =>
      rw [joined, spaced, List.append_assoc, hg, List.cons_append, levelled, ih]
      · simp
      · exact nofun
      · exact nofun

theorem text_fieldRow (f : Field) : f.row.text = f.line.text := by
  unfold Field.row Field.line Row.text Field.normal
  cases f.initializer with
  | none => simp [initializerText]
  | some e => simp [initializerText, text_qualified, String.append_assoc]

theorem levelled_fields (fs : List Field) (rest : List Row) :
    levelled 1 (fs.map Field.row ++ rest) = fs.map Field.line ++ levelled 1 rest := by
  induction fs with
  | nil => rfl
  | cons f fs ih =>
    have hline : (⟨1, f.row.text⟩ : Line) = f.line := by
      rw [text_fieldRow]
      rfl
    rw [List.map_cons, List.map_cons, List.cons_append, List.cons_append, ← ih, ← hline]
    rfl

theorem levelled_method (m : Method) (rest : List Row) :
    levelled 1 (m.rows ++ rest) = m.lines ++ levelled 1 rest := by
  have hbody := levelled_rowsOf m.body 2 (.closing :: rest)
  rw [levelled_closing] at hbody
  simpa [Method.rows, Method.lines, levelled, Row.closes, Row.opens, Row.text] using hbody

theorem levelled_class (c : Class) (rest : List Row) :
    levelled 0 (c.rows ++ rest) = c.lines ++ levelled 0 rest := by
  have hmethods : List.Forall₂ (fun g l => ∀ rest, levelled 1 (g ++ rest) = l ++ levelled 1 rest)
      (c.methods.map Method.rows) (c.methods.map Method.lines) := by
    rw [List.forall₂_map_left_iff, List.forall₂_map_right_iff, List.forall₂_same]
    exact fun m _ => levelled_method m
  have hgroups : List.Forall₂ (fun g l => ∀ rest, levelled 1 (g ++ rest) = l ++ levelled 1 rest)
      ((if c.fields.isEmpty then [] else [c.fields.map Field.row]) ++ c.methods.map Method.rows)
      ((if (c.fields.map Field.line).isEmpty then [] else [c.fields.map Field.line]) ++
        c.methods.map Method.lines) := by
    rw [List.isEmpty_map]
    apply List.rel_append
    · split
      · exact .nil
      · exact .cons (levelled_fields c.fields) .nil
    · exact hmethods
  have hbody := levelled_joined hgroups (.closing :: rest)
  rw [levelled_closing] at hbody
  simpa [Class.rows, Class.lines, levelled, Row.closes, Row.opens, Row.text] using hbody

theorem lines_eq_levelled (f : SourceFile) : f.lines = levelled 0 f.rows := by
  have hclasses : List.Forall₂ (fun g l => ∀ rest, levelled 0 (g ++ rest) = l ++ levelled 0 rest)
      (f.classes.map Class.rows) (f.classes.map Class.lines) := by
    rw [List.forall₂_map_left_iff, List.forall₂_map_right_iff, List.forall₂_same]
    exact fun c _ => levelled_class c
  have hall := levelled_joined hclasses []
  rw [List.append_nil] at hall
  rw [SourceFile.rows, hall, SourceFile.lines]
  exact (List.append_nil _).symm

theorem normal_normal_field (f : Field) : f.normal.normal = f.normal := by
  unfold Field.normal
  cases f.initializer with
  | none => rfl
  | some e => simp [qualified_qualified]

theorem methodRows_normal (m : Method) : m.normal.rows = m.rows := by
  rw [Method.rows, Method.rows, Method.normal, rowsOf_normal]

theorem classRows_normal (c : Class) : c.normal.rows = c.rows := by
  have hfields : (c.fields.map Field.normal).map Field.row = c.fields.map Field.row := by
    rw [List.map_map]
    apply List.map_congr_left
    intro f _
    exact congrArg Row.field (normal_normal_field f)
  have hmethods : (c.methods.map Method.normal).map Method.rows = c.methods.map Method.rows := by
    rw [List.map_map]
    apply List.map_congr_left
    intro m _
    exact methodRows_normal m
  rw [Class.rows, Class.rows, Class.normal]
  simp only [hfields, hmethods, List.isEmpty_map]

theorem fileRows_normal (f : SourceFile) : f.normal.rows = f.rows := by
  rw [SourceFile.rows, SourceFile.rows, SourceFile.normal, List.map_map]
  congr 1
  apply List.map_congr_left
  intro c _
  exact classRows_normal c

/-! ### Classes with the same rows -/

section
variable {α β : Type} {rows : α → List Row} {norm : α → β}

/-- Neither a further member nor a blank row comes next. -/
def Ended (rest : List Row) : Prop := ∀ r ∈ rest.head?, r.kind ≠ .head ∧ r.kind ≠ .blank

theorem joined_cons (g : List Row) (gs : List (List Row)) :
    joined (g :: gs) = g ++ gs.flatMap (.blank :: ·) := by
  induction gs generalizing g with
  | nil => simp [joined]
  | cons g' gs ih => rw [joined, ih g', List.flatMap_cons, List.cons_append]; exact nofun

theorem following_inj (h : ∀ a, Decodes rows norm a) {as as' : List α} {rest rest' : List Row}
    (hrest : Ended rest) (hrest' : Ended rest')
    (heq : (as.map rows).flatMap (.blank :: ·) ++ rest =
      (as'.map rows).flatMap (.blank :: ·) ++ rest') : as.map norm = as'.map norm ∧ rest = rest' := by
  have hblank : ∀ a, Decodes (fun a => Row.blank :: rows a) norm a :=
    fun a a' _ _ heq => h a a' _ _ (List.cons.inj heq).2
  have hstarted : Started (fun a => Row.blank :: rows a) fun r => decide (r.kind = .blank) :=
    fun a => ⟨_, _, rfl, rfl⟩
  rw [List.flatMap_map, List.flatMap_map] at heq
  exact hstarted.allDecode hblank as as' rest rest'
    (fun r hr => decide_eq_false (hrest r hr).2) (fun r hr => decide_eq_false (hrest' r hr).2) heq

theorem joined_inj (h : ∀ a, Decodes rows norm a)
    (hhead : ∀ a, ∃ r tail, rows a = r :: tail ∧ r.kind = .head) {as as' : List α}
    {rest rest' : List Row} (hrest : Ended rest) (hrest' : Ended rest')
    (heq : joined (as.map rows) ++ rest = joined (as'.map rows) ++ rest') :
    as.map norm = as'.map norm ∧ rest = rest' := by
  cases as with
  | nil =>
    cases as' with
    | nil => exact ⟨rfl, heq⟩
    | cons a' as' =>
      obtain ⟨r, tail, hr, hkind⟩ := hhead a'
      rw [List.map_cons, joined_cons, hr] at heq
      have hfirst : rest.head? = some r := by simpa [joined] using congrArg List.head? heq
      exact absurd hkind (hrest r hfirst).1
  | cons a as =>
    cases as' with
    | nil =>
      obtain ⟨r, tail, hr, hkind⟩ := hhead a
      rw [List.map_cons, joined_cons, hr] at heq
      have hfirst : rest'.head? = some r := by simpa [joined] using (congrArg List.head? heq).symm
      exact absurd hkind (hrest' r hfirst).1
    | cons a' as' =>
      rw [List.map_cons, List.map_cons, joined_cons, joined_cons, List.append_assoc,
        List.append_assoc] at heq
      obtain ⟨ha, htail⟩ := h a a' _ _ heq
      obtain ⟨has, hend⟩ := following_inj h hrest hrest' htail
      rw [List.map_cons, List.map_cons, ha, has]
      exact ⟨rfl, hend⟩

end

theorem ended_closing (rest : List Row) : Ended (.closing :: rest) := by
  simp [Ended, Row.kind]

theorem decodes_method (m : Method) : Decodes Method.rows Method.normal m := by
  intro m' rest rest' h
  simp only [Method.rows, List.cons_append, List.append_assoc] at h
  obtain ⟨hrow, hbody⟩ := List.cons.inj h
  obtain ⟨hstmts, hend⟩ := body_inj (allDecode m.body) hbody
  obtain ⟨hmodifiers, hreturns, hname, hparameters⟩ := Row.methodHead.inj hrow
  rw [Method.normal, Method.normal, hmodifiers, hreturns, hname, hparameters, hstmts]
  exact ⟨rfl, hend⟩

/-- Fields are told from what follows them. -/
theorem fields_inj {fs fs' : List Field} {rest rest' : List Row}
    (hrest : ∀ r ∈ rest.head?, r.kind ≠ .line) (hrest' : ∀ r ∈ rest'.head?, r.kind ≠ .line)
    (h : fs.map Field.row ++ rest = fs'.map Field.row ++ rest') :
    fs.map Field.normal = fs'.map Field.normal ∧ rest = rest' := by
  have hfields : ∀ fs : List Field, ∀ r ∈ fs.map Field.row, decide (r.kind = .line) = true := by
    intro fs r hr
    obtain ⟨f, -, rfl⟩ := List.mem_map.mp hr
    rfl
  obtain ⟨hrows, hend⟩ := cut_inj (hfields fs) (hfields fs') (fun r hr => decide_eq_false (hrest r hr))
    (fun r hr => decide_eq_false (hrest' r hr)) h
  have hnormal : (fs.map Field.normal).map Row.field = (fs'.map Field.normal).map Row.field := by
    rw [List.map_map, List.map_map]
    exact hrows
  exact ⟨(List.map_inj_right fun _ _ => Row.field.inj).mp hnormal, hend⟩

/-- The rows between the braces of a class: a blank one stands in front of a method unless the method
is the first member. -/
theorem classRows_eq (c : Class) (rest : List Row) : c.rows ++ rest =
    .classHead c.modifiers c.name :: (c.fields.map Field.row ++
      ((if c.fields.isEmpty then joined (c.methods.map Method.rows)
        else (c.methods.map Method.rows).flatMap (.blank :: ·)) ++ .closing :: rest)) := by
  unfold Class.rows
  cases hfields : c.fields with
  | nil => simp
  | cons f fs => simp [joined_cons]

theorem methods_after_fields (first : Bool) (ms : List Method) (rest : List Row) :
    ∀ r ∈ ((if first then joined (ms.map Method.rows)
      else (ms.map Method.rows).flatMap (.blank :: ·)) ++ .closing :: rest).head?, r.kind ≠ .line := by
  cases ms with
  | nil => cases first <;> simp [joined, Row.kind]
  | cons m ms => cases first <;> simp [joined_cons, Method.rows, Row.kind]

theorem decodes_class (c : Class) : Decodes Class.rows Class.normal c := by
  intro c' rest rest' h
  rw [classRows_eq, classRows_eq] at h
  obtain ⟨hrow, hmembers⟩ := List.cons.inj h
  obtain ⟨hfields, hmethods⟩ := fields_inj (methods_after_fields _ _ rest)
    (methods_after_fields _ _ rest') hmembers
  have hempty : c.fields.isEmpty = c'.fields.isEmpty := by
    rw [← List.isEmpty_map (f := Field.normal), hfields, List.isEmpty_map]
  have hends : c.methods.map Method.normal = c'.methods.map Method.normal ∧
      Row.closing :: rest = .closing :: rest' := by
    rw [hempty] at hmethods
    cases hfirst : c'.fields.isEmpty with
    | true =>
      rw [hfirst] at hmethods
      exact joined_inj decodes_method (fun m => ⟨_, _, rfl, rfl⟩) (ended_closing rest)
        (ended_closing rest') hmethods
    | false =>
      rw [hfirst] at hmethods
      exact following_inj decodes_method (ended_closing rest) (ended_closing rest') hmethods
  obtain ⟨hmodifiers, hname⟩ := Row.classHead.inj hrow
  rw [Class.normal, Class.normal, hmodifiers, hname, hfields, hends.1]
  exact ⟨rfl, (List.cons.inj hends.2).2⟩

theorem normal_of_rows_eq {u v : SourceFile} (h : u.rows = v.rows) : u.normal = v.normal := by
  have hhead : ∀ c : Class, ∃ r tail, c.rows = r :: tail ∧ r.kind = .head :=
    fun c => ⟨_, _, rfl, rfl⟩
  have hended : Ended [] := by simp [Ended]
  have happend : joined (u.classes.map Class.rows) ++ [] = joined (v.classes.map Class.rows) ++ [] :=
    congrArg (· ++ []) h
  rw [SourceFile.normal, SourceFile.normal,
    (joined_inj decodes_class hhead hended hended happend).1]

/-! ### Readable files -/

section
variable (L : Letters)

mutual

/-- All expressions of the statement are readable. -/
def Stmt.Readable : Stmt → Prop
  | .expr e => e.Readable L
  | .block stmts => Stmt.AllReadable stmts
  | .branch condition thenDo elseDo =>
    condition.Readable L ∧ thenDo.Readable ∧ Stmt.ElseReadable elseDo
  | .loop init test update body =>
    Expr.AllReadable L init ∧ Expr.AllReadable L test.toList ∧ Expr.AllReadable L update ∧
      body.Readable

def Stmt.ElseReadable : Option Stmt → Prop
  | none => True
  | some s => s.Readable

def Stmt.AllReadable : List Stmt → Prop
  | [] => True
  | s :: ss => s.Readable ∧ Stmt.AllReadable ss

end

structure Field.Readable (f : Field) : Prop where
  ty : f.ty.Readable L
  name : L.Identifier f.name.toList
  initializer : ∀ e ∈ f.initializer, e.Readable L

structure Method.Readable (m : Method) : Prop where
  returns : m.returns.Readable L
  name : L.Identifier m.name.toList
  parameters : ∀ p ∈ m.parameters, p.Readable L
  body : Stmt.AllReadable L m.body

structure Class.Readable (c : Class) : Prop where
  name : L.Identifier c.name.toList
  fields : ∀ f ∈ c.fields, f.Readable L
  methods : ∀ m ∈ c.methods, m.Readable L

/-- All names are identifiers, class types are dotted names, and expressions can be read back. -/
def SourceFile.Readable (f : SourceFile) : Prop := ∀ c ∈ f.classes, c.Readable L

end

section
variable {L : Letters}

theorem allQualified_test {test : Option Expr} (h : Expr.AllReadable L test.toList) :
    Expr.AllQualified L (test.map Expr.qualified).toList := by
  refine ⟨test.toList, h, ?_⟩
  cases test <;> rfl

mutual

theorem readable_rows (s : Stmt) (hs : s.Readable L) (place : Place) :
    ∀ r ∈ s.rows place, r.Readable L := by
  match s with
  | .expr e =>
    intro r hr
    rw [Stmt.rows, List.mem_singleton] at hr
    rw [hr]
    exact ⟨e, hs, rfl⟩
  | .block ss =>
    have hss := readable_rowsOf ss hs
    cases place with
    | braced => exact hss
    | _ =>
      simp only [Stmt.rows, List.forall_mem_cons, List.forall_mem_append]
      exact ⟨trivial, hss, trivial, nofun⟩
  | .branch c t e =>
    have hcondition : c.qualified.Qualified L := ⟨c, hs.1, rfl⟩
    have hthen := readable_rows t hs.2.1 .braced
    have helse := readable_elseRows e hs.2.2
    rw [Stmt.rows.eq_def]
    simp only [List.forall_mem_cons, List.forall_mem_append]
    refine ⟨?_, hthen, helse⟩
    cases place <;> exact hcondition
  | .loop init test update t =>
    have hbody := readable_rows t hs.2.2.2 .braced
    simp only [Stmt.rows, List.forall_mem_cons, List.forall_mem_append]
    exact ⟨⟨⟨init, hs.1, rfl⟩, allQualified_test hs.2.1, update, hs.2.2.1, rfl⟩, hbody, trivial,
      nofun⟩

theorem readable_elseRows (e : Option Stmt) (he : Stmt.ElseReadable L e) :
    ∀ r ∈ Stmt.elseRows e, r.Readable L := by
  match e with
  | none =>
    rw [Stmt.elseRows, List.forall_mem_singleton]
    trivial
  | some s =>
    rw [Stmt.elseRows]
    split
    · exact readable_rows s he .chained
    · simp only [List.forall_mem_cons, List.forall_mem_append]
      exact ⟨trivial, readable_rows s he .braced, trivial, nofun⟩

theorem readable_rowsOf (ss : List Stmt) (hss : Stmt.AllReadable L ss) :
    ∀ r ∈ Stmt.rowsOf ss, r.Readable L := by
  match ss with
  | [] => exact nofun
  | s :: ss =>
    rw [Stmt.rowsOf, List.forall_mem_append]
    exact ⟨readable_rows s hss.1 .listed, readable_rowsOf ss hss.2⟩

end

theorem mem_joined {gs : List (List Row)} {r : Row} (h : r ∈ joined gs) :
    r = .blank ∨ ∃ g ∈ gs, r ∈ g := by
  cases gs with
  | nil => cases h
  | cons g gs =>
    rw [joined_cons, List.mem_append, List.mem_flatMap] at h
    rcases h with hg | ⟨g', hg', hr⟩
    · exact .inr ⟨g, List.mem_cons_self, hg⟩
    · cases List.mem_cons.mp hr with
      | inl hblank => exact .inl hblank
      | inr hin => exact .inr ⟨g', List.mem_cons_of_mem _ hg', hin⟩

theorem readable_joined {gs : List (List Row)} (h : ∀ g ∈ gs, ∀ r ∈ g, r.Readable L) :
    ∀ r ∈ joined gs, r.Readable L := by
  intro r hr
  cases mem_joined hr with
  | inl hblank =>
    rw [hblank]
    trivial
  | inr hin =>
    obtain ⟨g, hg, hr⟩ := hin
    exact h g hg r hr

theorem readable_method {m : Method} (h : m.Readable L) : ∀ r ∈ m.rows, r.Readable L := by
  simp only [Method.rows, List.forall_mem_cons, List.forall_mem_append]
  exact ⟨⟨h.returns, h.name, h.parameters⟩, readable_rowsOf m.body h.body, trivial, nofun⟩

theorem readable_field {f : Field} (h : f.Readable L) : f.row.Readable L := by
  refine ⟨h.ty, h.name, ?_⟩
  intro e he
  obtain ⟨o, ho, rfl⟩ := Option.map_eq_some_iff.mp he
  exact ⟨o, h.initializer o ho, rfl⟩

theorem readable_class {c : Class} (h : c.Readable L) : ∀ r ∈ c.rows, r.Readable L := by
  have hgroups : ∀ g ∈ (if c.fields.isEmpty then [] else [c.fields.map Field.row]) ++
      c.methods.map Method.rows, ∀ r ∈ g, r.Readable L := by
    rw [List.forall_mem_append]
    constructor
    · intro g hg r hr
      split at hg
      · cases hg
      · rw [List.mem_singleton.mp hg] at hr
        obtain ⟨f, hf, rfl⟩ := List.mem_map.mp hr
        exact readable_field (h.fields f hf)
    · intro g hg
      obtain ⟨m, hm, rfl⟩ := List.mem_map.mp hg
      exact readable_method (h.methods m hm)
  simp only [Class.rows, List.forall_mem_cons, List.forall_mem_append]
  exact ⟨h.name, readable_joined hgroups, trivial, nofun⟩

theorem readable_file {f : SourceFile} (h : f.Readable L) : ∀ r ∈ f.rows, r.Readable L := by
  apply readable_joined
  intro g hg
  obtain ⟨c, hc, rfl⟩ := List.mem_map.mp hg
  exact readable_class (h c hc)

/-! ### Printed files -/

/-- A line with its indentation, and without the end of the line. -/
def shifted (indent : Nat) (l : Line) : List Char :=
  List.replicate (l.level * indent) ' ' ++ l.text.toList

theorem toList_join_indented (indent : Nat) (ls : List Line) :
    (String.join (ls.map (Line.indented indent))).toList =
      (ls.map (shifted indent)).flatMap (· ++ '\n' :: []) := by
  rw [String.toList_join, List.flatMap_map, List.flatMap_map]
  congr 1
  funext l
  simp [Line.indented, spaces, shifted]

theorem newline_not_mem_shifted (indent : Nat) {l : Line}
    (h : Inline l.text.toList ∨ l.text = "") : '\n' ∉ shifted indent l := by
  have htext : '\n' ∉ l.text.toList := by
    cases h with
    | inl hinline => exact hinline.line
    | inr hempty => simp [hempty]
  have hspaces : '\n' ∉ List.replicate (l.level * indent) ' ' := by
    simp [List.mem_replicate]
  rw [shifted, List.mem_append, not_or]
  exact ⟨hspaces, htext⟩

/-- A text that starts with no space is found behind any number of them. -/
theorem dropWhile_shifted (indent : Nat) {l : Line} (h : Inline l.text.toList ∨ l.text = "") :
    (shifted indent l).dropWhile (· == ' ') = l.text.toList := by
  have hspaces : ∀ c ∈ List.replicate (l.level * indent) ' ', (c == ' ') = true := by
    intro c hc
    rw [(List.mem_replicate.mp hc).2]
    rfl
  rw [shifted, List.dropWhile_append_of_pos hspaces]
  cases h with
  | inl hinline =>
    obtain ⟨c, hc, hne⟩ := hinline.head
    obtain ⟨tail, htail⟩ := List.head?_eq_some_iff.mp hc
    rw [htail, List.dropWhile_cons_of_neg (by simpa using hne)]
  | inr hempty => simp [hempty]

/-- Lines are told apart in a text whatever their levels are. -/
theorem texts_of_indented {indent : Nat} {ls ls' : List Line}
    (h : ∀ l ∈ ls, Inline l.text.toList ∨ l.text = "")
    (h' : ∀ l ∈ ls', Inline l.text.toList ∨ l.text = "")
    (heq : String.join (ls.map (Line.indented indent)) = String.join (ls'.map (Line.indented indent))) :
    ls.map (·.text) = ls'.map (·.text) := by
  have hlines : ∀ {ls : List Line}, (∀ l ∈ ls, Inline l.text.toList ∨ l.text = "") →
      ∀ cs ∈ ls.map (shifted indent), '\n' ∉ cs := by
    intro ls h cs hcs
    obtain ⟨l, hl, rfl⟩ := List.mem_map.mp hcs
    exact newline_not_mem_shifted indent (h l hl)
  have htexts : ∀ {ls : List Line}, (∀ l ∈ ls, Inline l.text.toList ∨ l.text = "") →
      (ls.map (shifted indent)).map (fun cs => String.ofList (cs.dropWhile (· == ' '))) =
        ls.map (·.text) := by
    intro ls h
    rw [List.map_map]
    apply List.map_congr_left
    intro l hl
    rw [Function.comp_apply, dropWhile_shifted indent (h l hl), String.ofList_toList]
  have hchars := congrArg String.toList heq
  rw [toList_join_indented, toList_join_indented] at hchars
  rw [← htexts h, terminated_inj (hlines h) (hlines h') hchars, htexts h']

theorem render_eq_ok {indent : Nat} {ls : List Line} {text : String}
    (h : render indent ls = .ok text) : String.join (ls.map (Line.indented indent)) = text := by
  unfold render at h
  split at h
  · exact Except.ok.inj h
  · cases h

theorem inline_lines {f : SourceFile} (h : f.Readable L) :
    ∀ l ∈ f.lines, Inline l.text.toList ∨ l.text = "" := by
  intro l hl
  have hmem : l.text ∈ f.rows.map Row.text := by
    rw [← texts_levelled 0, ← lines_eq_levelled]
    exact List.mem_map_of_mem hl
  obtain ⟨r, hr, htext⟩ := List.mem_map.mp hmem
  rw [← htext]
  exact Row.inline_or_blank (readable_file h r hr)

theorem rows_of_texts {u v : SourceFile} (hu : u.Readable L) (hv : v.Readable L)
    (h : u.lines.map (·.text) = v.lines.map (·.text)) : u.rows = v.rows := by
  rw [lines_eq_levelled, lines_eq_levelled, texts_levelled, texts_levelled] at h
  exact eq_of_map_eq (fun r r' => Row.eq_of_text) (readable_file hu) (readable_file hv) h

/-- Printed classes keep their structure: the texts of two files are equal exactly if the files are
equal up to braces around bodies and the two ways of writing a dotted name. The normal forms that are
compared still tell to which `if` an `else` belongs, a block inside a block, and a chain from an `else`
with a block. -/
theorem print_eq_iff {u v : SourceFile} (hu : u.Readable L) (hv : v.Readable L) {indent : Nat}
    {a b : String} (ha : u.print indent = .ok a) (hb : v.print indent = .ok b) :
    (a = b ↔ u.normal = v.normal) ∧ ∀ (c d : Expr) (s t : Stmt) (o : Option Stmt) (ss : List Stmt),
      (Stmt.branch c (.branch d s (some t)) none).normal ≠
        (Stmt.branch c (.branch d s none) (some t)).normal ∧
      (Stmt.branch c s (some (.branch d t o))).normal ≠
        (Stmt.branch c s (some (.block [.branch d t o]))).normal ∧
      (Stmt.block [.block ss]).normal ≠ (Stmt.block ss).normal := by
  constructor
  · constructor
    · intro hab
      rw [← render_eq_ok ha, ← render_eq_ok hb] at hab
      have htexts := texts_of_indented (inline_lines hu) (inline_lines hv) hab
      exact normal_of_rows_eq (rows_of_texts hu hv htexts)
    · intro hnormal
      have hrows : u.rows = v.rows := by
        rw [← fileRows_normal u, hnormal, fileRows_normal v]
      rw [← render_eq_ok ha, ← render_eq_ok hb, lines_eq_levelled, lines_eq_levelled, hrows]
  · intro c d s t o ss
    refine ⟨nofun, nofun, ?_⟩
    intro hblocks
    have hsize := congrArg sizeOf hblocks
    simp [Stmt.normal, Stmt.normalAll] at hsize
    omega

end

/-- A file with one class, one method and one statement. -/
def oneStatement (s : Stmt) : SourceFile :=
  ⟨[{ name := "A", methods := [{ modifiers := [.pub], name := "run", body := [s] }] }]⟩

theorem readable_oneStatement {s : Stmt} (hs : s.Readable .ascii) :
    (oneStatement s).Readable .ascii := by
  have hname : Letters.ascii.Identifier "A".toList ∧ Letters.ascii.Identifier "run".toList := by
    decide +kernel
  have hmethod : Method.Readable .ascii { modifiers := [.pub], name := "run", body := [s] } :=
    ⟨trivial, hname.2, nofun, hs, trivial⟩
  intro c hc
  rw [List.mem_singleton.mp hc]
  refine ⟨hname.1, nofun, ?_⟩
  intro m hm
  rw [List.mem_singleton.mp hm]
  exact hmethod

def say (text : String) : Stmt :=
  .expr (.call (some (.name "System.out")) "println" [.string text])

def restIs (v : Int64) : Expr := .binary .equals (.field (.name "n") "rest") (.int v)

theorem readable_restIs (v : Int64) : (restIs v).Readable .ascii := by
  have hnames : Letters.ascii.Dotted "n" ∧ Letters.ascii.Identifier "rest".toList := by
    decide +kernel
  exact ⟨⟨rfl, hnames⟩, trivial⟩

theorem readable_say (text : String) : (say text).Readable .ascii := by
  have hnames : Letters.ascii.Dotted "System.out" ∧ Letters.ascii.Identifier "println".toList := by
    decide +kernel
  exact ⟨rfl, hnames.1, hnames.2, trivial, trivial⟩

/-- An `else` for the inner one of two conditions, with or without braces, and one for the outer. -/
def innerElse : Stmt :=
  .branch (restIs 0) (.branch (restIs 1) (say "\x7d else \x7b") (some (say ";"))) none

def innerElseBraced : Stmt :=
  .branch (restIs 0) (.block [.branch (.binary .equals (.name "n.rest") (.int 1))
    (.block [say "\x7d else \x7b"]) (some (.block [say ";"]))]) none

def outerElse : Stmt :=
  .branch (restIs 0) (.branch (restIs 1) (say "\x7d else \x7b") none) (some (say ";"))

theorem print_dangling_else : ∃ inner braced outer,
    (oneStatement innerElse).print 4 = .ok inner ∧
    (oneStatement innerElseBraced).print 4 = .ok braced ∧
    (oneStatement outerElse).print 4 = .ok outer ∧ inner = braced ∧ inner ≠ outer := by
  have hzero := readable_restIs 0
  have hone := readable_restIs 1
  have hthen := readable_say "\x7d else \x7b"
  have helse := readable_say ";"
  have hdotted : Letters.ascii.Dotted "n.rest" := by decide +kernel
  have hinner : innerElse.Readable .ascii := ⟨hzero, ⟨hone, hthen, helse⟩, trivial⟩
  have hbraced : innerElseBraced.Readable .ascii :=
    ⟨hzero, ⟨⟨⟨hdotted, trivial⟩, ⟨hthen, trivial⟩, helse, trivial⟩, trivial⟩, trivial⟩
  have houter : outerElse.Readable .ascii := ⟨hzero, ⟨hone, hthen, trivial⟩, helse⟩
  have hinner' : (oneStatement innerElse).print 4 = .ok _ := rfl
  have hbraced' : (oneStatement innerElseBraced).print 4 = .ok _ := rfl
  have houter' : (oneStatement outerElse).print 4 = .ok _ := rfl
  refine ⟨_, _, _, hinner', hbraced', houter', ?_, ?_⟩
  · apply (print_eq_iff (readable_oneStatement hinner) (readable_oneStatement hbraced) hinner'
      hbraced').1.mpr
    rfl
  · intro heq
    have hnormal := (print_eq_iff (readable_oneStatement hinner) (readable_oneStatement houter)
      hinner' houter').1.mp heq
    cases hnormal

end RpgLowering.Target
