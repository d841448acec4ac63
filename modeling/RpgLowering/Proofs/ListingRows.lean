import RpgLowering.Proofs.ListingText

/-! The lines of a listing one by one. A row is what a line says; its text determines its kind and the
name it declares in every program, and the whole row once the names of the program are known. -/
namespace RpgLowering.Core
open Text
open Alphabet (Mark)
open Target (cut_inj cut_at bne_of_not_mem split_word eq_of_map_eq commaSeparated commaSeparated_inj
  newline_not_mem_commaSeparated Inline)

/-- What a line of a listing says. -/
inductive Row where
  | program (name : String)
  | global (g : Global)
  | function (name : String) (parameters : List Parameter)
  | assign (target : GlobalId) (value : Expr)
  | reset (target : GlobalId)
  | call (function : FunctionId)
  | print (value : Expr)
  | switch
  | loop (counter : GlobalId) (low high : Expr)
  | case (condition : Expr)
  | otherwise
  | closing

section
variable {A : Alphabet} {p q : Program}

/-- What follows the type of a global. -/
def initialText (p : Program) : Option Expr → String
  | some e => " = " ++ e.text p
  | none => ""

def Row.text (p : Program) : Row → String
  | .program n => "ir::Program " ++ n ++ " \x7b"
  | .global g => "global " ++ g.name ++ ": " ++ g.ty.text ++ initialText p g.initial
  | .function n ps =>
    "fn " ++ n ++ "(" ++ commaSeparated (ps.map (Parameter.text true)) ++ ") \x7b"
  | .assign target value => p.globalText target ++ " := " ++ value.text p
  | .reset target => "reset " ++ p.globalText target
  | .call f => "call " ++ p.functionText f ++ "()"
  | .print value => "print " ++ value.text p
  | .switch => "switch \x7b"
  | .loop counter low high =>
    "for " ++ p.globalText counter ++ " in " ++ low.text p ++ "..=" ++ high.text p ++ " \x7b"
  | .case condition => "case " ++ condition.text p ++ " \x7b"
  | .otherwise => "else \x7b"
  | .closing => "\x7d"

/-- Names are identifiers, and decimal numbers are finite. -/
def Row.Readable (A : Alphabet) : Row → Prop
  | .program n => A.Identifier n
  | .global g => A.Identifier g.name ∧ ∀ e ∈ g.initial, e.Finite
  | .function n ps => A.Identifier n ∧ ∀ x ∈ ps, A.Identifier x.name
  | .assign _ e | .print e | .case e => e.Finite
  | .loop _ low high => low.Finite ∧ high.Finite
  | .reset _ | .call _ | .switch | .otherwise | .closing => True

/-- References can be told apart. -/
structure Program.Legible (A : Alphabet) (p : Program) : Prop where
  globals : Named A (p.globals.map (·.name))
  functions : Named A (p.functions.map (·.name))

/-! ### Kinds of rows -/

inductive Kind where
  | program
  | global
  | function
  | assign
  | reset
  | call
  | print
  | switch
  | loop
  | case
  | otherwise
  | closing
  deriving DecidableEq

def Row.kind : Row → Kind
  | .program _ => .program
  | .global _ => .global
  | .function .. => .function
  | .assign .. => .assign
  | .reset _ => .reset
  | .call _ => .call
  | .print _ => .print
  | .switch => .switch
  | .loop .. => .loop
  | .case _ => .case
  | .otherwise => .otherwise
  | .closing => .closing

/-- The first words, and the kinds they stand for. -/
def keywords : List (List Char × Kind) :=
  [("ir::Program".toList, .program), ("global".toList, .global), ("fn".toList, .function),
    ("reset".toList, .reset), ("call".toList, .call), ("print".toList, .print),
    ("switch".toList, .switch), ("for".toList, .loop), ("case".toList, .case),
    ("else".toList, .otherwise)]

/-- The kind of a row by its first word, unless the second one shows that the first is a target. -/
def kindOf (text : List Char) : Kind :=
  match text.dropWhile (· != ' ') with
  | ' ' :: ':' :: _ => .assign
  | _ => (keywords.lookup (text.takeWhile (· != ' '))).getD .closing

theorem kindOf_assign {target : List Char} (h : ' ' ∉ target) (rest : List Char) :
    kindOf (target ++ ' ' :: ':' :: rest) = .assign := by
  rw [kindOf, (split_word h _).2]
  rfl

/-- The text starts like a name or an expression. -/
def Starts (text : List Char) : Prop := ∃ c tail, text = c :: tail ∧ leadOf c ≠ .other

theorem starts_append {front : List Char} {lead : Lead}
    (h : ∃ c tail, front = c :: tail ∧ leadOf c = lead) (hlead : lead ≠ .other)
    (rest : List Char) : Starts (front ++ rest) := by
  obtain ⟨c, tail, rfl, hc⟩ := h
  exact ⟨c, tail ++ rest, rfl, hc ▸ hlead⟩

theorem starts_identifier {n : String} (hn : A.Identifier n) (rest : List Char) :
    Starts (n.toList ++ rest) :=
  starts_append (leadOf_identifier hn) nofun rest

theorem starts_global (hp : p.Legible A) (id : GlobalId) (rest : List Char) :
    Starts ((p.globalText id).toList ++ rest) := by
  rw [globalText_eq]
  exact starts_append (leadOf_reference hp.globals "global" id.index) nofun rest

theorem starts_function (hp : p.Legible A) (id : FunctionId) (rest : List Char) :
    Starts ((p.functionText id).toList ++ rest) := by
  rw [functionText_eq]
  exact starts_append (leadOf_reference hp.functions "function" id.index) nofun rest

theorem starts_expr (hp : p.Legible A) {e : Expr} (he : e.Finite) (rest : List Char) :
    Starts ((e.text p).toList ++ rest) := by
  have hlead : e.lead ≠ .other := by cases e <;> nofun
  exact starts_append (lead_text hp.globals he) hlead rest

theorem kindOf_keyword {w rest : List Char} {kind : Kind} (hw : (w, kind) ∈ keywords)
    (hrest : Starts rest) : kindOf (w ++ ' ' :: rest) = kind := by
  have hall : ∀ k ∈ keywords, ' ' ∉ k.1 ∧ keywords.lookup k.1 = some k.2 := by decide
  obtain ⟨hspace, hlookup⟩ := hall _ hw
  obtain ⟨c, tail, rfl, hc⟩ := hrest
  have hcolon : c ≠ ':' := by
    rintro rfl
    exact hc rfl
  rw [kindOf, (split_word hspace _).1, (split_word hspace _).2, hlookup]
  simp [hcolon]

theorem space_not_mem_global (hp : p.Legible A) (id : GlobalId) :
    ' ' ∉ (p.globalText id).toList := by
  rw [globalText_eq]
  exact not_mem_reference hp.globals (by decide) (by decide) id.index

theorem kindOf_text (hp : p.Legible A) {r : Row} (hr : r.Readable A) :
    kindOf (r.text p).toList = r.kind := by
  cases r with
  | program n =>
    have hkind : kindOf ("ir::Program".toList ++ ' ' :: (n.toList ++ [' ', '\x7b'])) = .program :=
      kindOf_keyword (by decide) (starts_identifier hr _)
    simpa [Row.text, Row.kind] using hkind
  | global g =>
    have hkind : kindOf ("global".toList ++ ' ' :: (g.name.toList ++
        ':' :: ' ' :: (g.ty.text.toList ++ (initialText p g.initial).toList))) = .global :=
      kindOf_keyword (by decide) (starts_identifier hr.1 _)
    simpa [Row.text, Row.kind] using hkind
  | function n ps =>
    have hkind : kindOf ("fn".toList ++ ' ' :: (n.toList ++
        '(' :: ((commaSeparated (ps.map (Parameter.text true))).toList ++ [')', ' ', '\x7b']))) =
          .function :=
      kindOf_keyword (by decide) (starts_identifier hr.1 _)
    simpa [Row.text, Row.kind] using hkind
  | assign target value =>
    have hkind := kindOf_assign (space_not_mem_global hp target) ('=' :: ' ' :: (value.text p).toList)
    simpa [Row.text, Row.kind] using hkind
  | reset target =>
    have hkind : kindOf ("reset".toList ++ ' ' :: ((p.globalText target).toList ++ [])) = .reset :=
      kindOf_keyword (by decide) (starts_global hp target _)
    simpa [Row.text, Row.kind] using hkind
  | call f =>
    have hkind : kindOf ("call".toList ++ ' ' :: ((p.functionText f).toList ++ ['(', ')'])) = .call :=
      kindOf_keyword (by decide) (starts_function hp f _)
    simpa [Row.text, Row.kind] using hkind
  | print e =>
    have hkind : kindOf ("print".toList ++ ' ' :: ((e.text p).toList ++ [])) = .print :=
      kindOf_keyword (by decide) (starts_expr hp hr _)
    simpa [Row.text, Row.kind] using hkind
  | loop counter low high =>
    have hkind : kindOf ("for".toList ++ ' ' :: ((p.globalText counter).toList ++
        " in ".toList ++ ((low.text p).toList ++ "..=".toList ++ ((high.text p).toList ++
          [' ', '\x7b'])))) = .loop := by
      rw [List.append_assoc]
      exact kindOf_keyword (by decide) (starts_global hp counter _)
    simpa [Row.text, Row.kind] using hkind
  | case c =>
    have hkind : kindOf ("case".toList ++ ' ' :: ((c.text p).toList ++ [' ', '\x7b'])) = .case :=
      kindOf_keyword (by decide) (starts_expr hp hr _)
    simpa [Row.text, Row.kind] using hkind
  | switch | otherwise | closing =>
    rw [Row.text]
    decide

/-! ### Declarations -/

theorem eq_of_tyText {t t' : Ty} (h : t.text.toList = t'.text.toList) : t = t' := by
  revert h
  cases t <;> cases t' <;> decide

theorem not_mem_tyText (t : Ty) {c : Char} (hc : Mark c) : c ∉ t.text.toList := by
  have hletters : t.text.toList.all Char.isAlpha = true := by cases t <;> decide
  intro hmem
  have hno := hc.2
  rw [Char.isAlphanum, List.all_eq_true.mp hletters c hmem] at hno
  cases hno

theorem toList_global (g : Global) : ((Row.global g).text p).toList =
    "global ".toList ++ (g.name.toList ++
      ':' :: ' ' :: (g.ty.text.toList ++ (initialText p g.initial).toList)) := by
  simp [Row.text]

theorem toList_function (n : String) (ps : List Parameter) : ((Row.function n ps).text p).toList =
    "fn ".toList ++ (n.toList ++
      '(' :: ((commaSeparated (ps.map (Parameter.text true))).toList ++ [')', ' ', '\x7b'])) := by
  simp [Row.text]

/-- The name and the type of a global are read off its line in every program. -/
theorem global_inj {g g' : Global} (hn : A.Identifier g.name) (hn' : A.Identifier g'.name)
    (h : (Row.global g).text p = (Row.global g').text q) :
    g.name = g'.name ∧ g.ty = g'.ty ∧ initialText p g.initial = initialText q g'.initial := by
  have htext := congrArg String.toList h
  rw [toList_global, toList_global] at htext
  obtain ⟨hname, htail⟩ := cut_at (hn.not_mem (by decide)) (hn'.not_mem (by decide))
    (List.append_cancel_left htext)
  have hletters : ∀ t : Ty, ∀ c ∈ t.text.toList, (c != ' ') = true :=
    fun t => bne_of_not_mem (not_mem_tyText t (by decide))
  have hinitial : ∀ {p : Program} {o : Option Expr}, ∀ c ∈ (initialText p o).toList.head?,
      (c != ' ') = false := by
    intro p o
    cases o <;> simp [initialText]
  obtain ⟨hty, hrest⟩ := cut_inj (hletters _) (hletters _) hinitial hinitial
    (List.cons.inj htail).2
  exact ⟨String.toList_inj.mp hname, eq_of_tyText hty, String.toList_inj.mp hrest⟩

theorem eq_of_parameterText {x x' : Parameter} (hx : A.Identifier x.name)
    (hx' : A.Identifier x'.name) (h : x.text true = x'.text true) : x = x' := by
  have htext : ∀ x : Parameter, (x.text true).toList =
      x.name.toList ++ ':' :: ' ' :: x.ty.text.toList := by
    intro x
    simp [Parameter.text]
  have hchars := congrArg String.toList h
  rw [htext, htext] at hchars
  obtain ⟨hname, htail⟩ := cut_at (hx.not_mem (by decide)) (hx'.not_mem (by decide)) hchars
  have hname := String.toList_inj.mp hname
  have hty := eq_of_tyText (List.cons.inj htail).2
  cases x
  cases x'
  simp_all

theorem not_mem_parameterText {x : Parameter} (hx : A.Identifier x.name) {c : Char} (hc : Mark c)
    (hno : c ≠ ':' ∧ c ≠ ' ') : c ∉ (x.text true).toList := by
  simp [Parameter.text, hx.not_mem hc, hno, not_mem_tyText x.ty hc]

/-- A line with a function says the same in every program. -/
theorem function_inj {n n' : String} {ps ps' : List Parameter}
    (hr : (Row.function n ps).Readable A) (hr' : (Row.function n' ps').Readable A)
    (h : (Row.function n ps).text p = (Row.function n' ps').text q) : n = n' ∧ ps = ps' := by
  have htext := congrArg String.toList h
  rw [toList_function, toList_function] at htext
  obtain ⟨hname, htail⟩ := cut_at (hr.1.not_mem (by decide)) (hr'.1.not_mem (by decide))
    (List.append_cancel_left htext)
  have hcommas : ∀ {ps : List Parameter}, (∀ x ∈ ps, A.Identifier x.name) →
      ∀ t ∈ ps.map (Parameter.text true), ',' ∉ t.toList ∧ t ≠ "" := by
    intro ps hps t ht
    obtain ⟨x, hx, rfl⟩ := List.mem_map.mp ht
    refine ⟨not_mem_parameterText (hps x hx) (by decide) (by decide), fun hempty => ?_⟩
    have hnil := congrArg String.toList hempty
    simp [Parameter.text] at hnil
  have hlists := commaSeparated_inj (hcommas hr.2) (hcommas hr'.2)
    (String.toList_inj.mp (List.append_cancel_right htail))
  exact ⟨String.toList_inj.mp hname,
    eq_of_map_eq (fun x x' => eq_of_parameterText) hr.2 hr'.2 hlists⟩

def Row.globalName? : Row → Option String
  | .global g => some g.name
  | _ => none

def Row.functionName? : Row → Option String
  | .function n _ => some n
  | _ => none

/-- Rows of two programs that read the same declare the same. -/
theorem declared_eq (hp : p.Legible A) (hq : q.Legible A) {r r' : Row} (hr : r.Readable A)
    (hr' : r'.Readable A) (h : r.text p = r'.text q) :
    r.globalName? = r'.globalName? ∧ r.functionName? = r'.functionName? := by
  have hkind : r.kind = r'.kind := by
    rw [← kindOf_text hp hr, h, kindOf_text hq hr']
  cases r with
  | global g =>
    cases r' with
    | global g' => exact ⟨congrArg some (global_inj hr.1 hr'.1 h).1, rfl⟩
    | _ => cases hkind
  | function n ps =>
    cases r' with
    | function n' ps' => exact ⟨rfl, congrArg some (function_inj hr hr' h).1⟩
    | _ => cases hkind
  | _ =>
    cases r' with
    | global g' => cases hkind
    | function n' ps' => cases hkind
    | _ => exact ⟨rfl, rfl⟩

/-! ### Rows with the same text -/

section
variable (hp : p.Legible A)
include hp

theorem eq_of_initialText {o o' : Option Expr} (ho : ∀ e ∈ o, e.Finite) (ho' : ∀ e ∈ o', e.Finite)
    (h : initialText p o = initialText p o') : o = o' := by
  have htext := congrArg String.toList h
  cases o with
  | none =>
    cases o' with
    | none => rfl
    | some e' => simp [initialText] at htext
  | some e =>
    cases o' with
    | none => simp [initialText] at htext
    | some e' =>
      have he : e.text p = e'.text p := String.toList_inj.mp (by simpa [initialText] using htext)
      rw [eq_of_text hp.globals (ho e rfl) (ho' e' rfl) he]

theorem eq_of_assign {t t' : GlobalId} {e e' : Expr} (he : e.Finite) (he' : e'.Finite)
    (h : (Row.assign t e).text p = (Row.assign t' e').text p) : t = t' ∧ e = e' := by
  have htext : ∀ (t : GlobalId) (e : Expr), ((Row.assign t e).text p).toList =
      (p.globalText t).toList ++ ' ' :: (":= ".toList ++ (e.text p).toList) := by
    intro t e
    simp [Row.text]
  have hchars := congrArg String.toList h
  rw [htext, htext] at hchars
  have hspace : ∀ rest, Stops A (' ' :: rest) := stops_mark (by decide)
  obtain ⟨htarget, htail⟩ := globalText_append_inj hp.globals (hspace _) (hspace _) hchars
  have hvalue := String.toList_inj.mp (List.append_cancel_left (List.cons.inj htail).2)
  exact ⟨htarget, eq_of_text hp.globals he he' hvalue⟩

theorem eq_of_loop {x x' : GlobalId} {low low' high high' : Expr}
    (hr : (Row.loop x low high).Readable A) (hr' : (Row.loop x' low' high').Readable A)
    (h : (Row.loop x low high).text p = (Row.loop x' low' high').text p) :
    x = x' ∧ low = low' ∧ high = high' := by
  have htext : ∀ (x : GlobalId) (low high : Expr), ((Row.loop x low high).text p).toList =
      "for ".toList ++ ((p.globalText x).toList ++ ' ' :: ("in ".toList ++ ((low.text p).toList ++
        '.' :: '.' :: '=' :: ((high.text p).toList ++ [' ', '\x7b'])))) := by
    intro x low high
    simp [Row.text]
  have hchars := congrArg String.toList h
  rw [htext, htext] at hchars
  have hspace : ∀ rest, Stops A (' ' :: rest) := stops_mark (by decide)
  obtain ⟨hcounter, htail⟩ := globalText_append_inj hp.globals (hspace _) (hspace _)
    (List.append_cancel_left hchars)
  obtain ⟨hlow, hrest⟩ := exprDecodes hp.globals hr.1 low' _ _ hr'.1 (ends_points _) (ends_points _)
    (List.append_cancel_left (List.cons.inj htail).2)
  have hhigh := (List.cons.inj (List.cons.inj (List.cons.inj hrest).2).2).2
  exact ⟨hcounter, hlow,
    eq_of_text hp.globals hr.2 hr'.2 (String.toList_inj.mp (List.append_cancel_right hhigh))⟩

theorem eq_of_reset {t t' : GlobalId} (h : (Row.reset t).text p = (Row.reset t').text p) :
    t = t' := by
  have hchars : (p.globalText t).toList ++ [] = (p.globalText t').toList ++ [] := by
    simpa [Row.text] using congrArg String.toList h
  have hstops : Stops A [] := nofun
  exact (globalText_append_inj hp.globals hstops hstops hchars).1

theorem eq_of_call {f f' : FunctionId} (h : (Row.call f).text p = (Row.call f').text p) :
    f = f' := by
  have hchars : (p.functionText f).toList = (p.functionText f').toList := by
    simpa [Row.text] using congrArg String.toList h
  rw [functionText_eq, functionText_eq] at hchars
  have hstops : Stops A [] := nofun
  exact congrArg FunctionId.mk
    (referenceText_append_inj hp.functions hstops hstops (congrArg (· ++ []) hchars)).1

/-- Different rows have different texts. -/
theorem Row.eq_of_text {r r' : Row} (hr : r.Readable A) (hr' : r'.Readable A)
    (h : r.text p = r'.text p) : r = r' := by
  have hkind : r.kind = r'.kind := by
    rw [← kindOf_text hp hr, h, kindOf_text hp hr']
  cases r with
  | program n =>
    cases r' with
    | program n' =>
      have hname : n = n' :=
        String.toList_inj.mp (by simpa [Row.text] using congrArg String.toList h)
      rw [hname]
    | _ => cases hkind
  | global g =>
    cases r' with
    | global g' =>
      obtain ⟨hname, hty, hinitial⟩ := global_inj hr.1 hr'.1 h
      have hinitial := eq_of_initialText hp hr.2 hr'.2 hinitial
      cases g
      cases g'
      simp_all
    | _ => cases hkind
  | function n ps =>
    cases r' with
    | function n' ps' =>
      obtain ⟨hname, hparameters⟩ := function_inj hr hr' h
      rw [hname, hparameters]
    | _ => cases hkind
  | assign t e =>
    cases r' with
    | assign t' e' =>
      obtain ⟨htarget, hvalue⟩ := eq_of_assign hp hr hr' h
      rw [htarget, hvalue]
    | _ => cases hkind
  | reset t =>
    cases r' with
    | reset t' => rw [eq_of_reset hp h]
    | _ => cases hkind
  | call f =>
    cases r' with
    | call f' => rw [eq_of_call hp h]
    | _ => cases hkind
  | print e =>
    cases r' with
    | print e' =>
      have htext : e.text p = e'.text p :=
        String.toList_inj.mp (by simpa [Row.text] using congrArg String.toList h)
      rw [Core.eq_of_text hp.globals hr hr' htext]
    | _ => cases hkind
  | loop x low high =>
    cases r' with
    | loop x' low' high' =>
      obtain ⟨hcounter, hlow, hhigh⟩ := eq_of_loop hp hr hr' h
      rw [hcounter, hlow, hhigh]
    | _ => cases hkind
  | case c =>
    cases r' with
    | case c' =>
      have htext : c.text p = c'.text p :=
        String.toList_inj.mp (by simpa [Row.text] using congrArg String.toList h)
      rw [Core.eq_of_text hp.globals hr hr' htext]
    | _ => cases hkind
  | switch | otherwise | closing =>
    cases r' <;> cases hkind
    rfl

/-! ### Rows on one line -/

theorem newline_not_mem_row {r : Row} (hr : r.Readable A) : '\n' ∉ (r.text p).toList := by
  have hname : ∀ {n : String}, A.Identifier n → '\n' ∉ n.toList := fun hn => hn.not_mem (by decide)
  have hglobal : ∀ id, '\n' ∉ (p.globalText id).toList := by
    intro id
    rw [globalText_eq]
    exact not_mem_reference hp.globals (by decide) (by decide) id.index
  have hfunction : ∀ id, '\n' ∉ (p.functionText id).toList := by
    intro id
    rw [functionText_eq]
    exact not_mem_reference hp.functions (by decide) (by decide) id.index
  have hexpr : ∀ {e : Expr}, e.Finite → '\n' ∉ (e.text p).toList := newline_not_mem_text hp.globals
  cases r with
  | program n => simp [Row.text, hname hr]
  | global g =>
    have hty : '\n' ∉ g.ty.text.toList := not_mem_tyText g.ty (by decide)
    have hinitial : '\n' ∉ (initialText p g.initial).toList := by
      cases ho : g.initial with
      | none => exact List.not_mem_nil
      | some e => simp [initialText, hexpr (hr.2 e ho)]
    simp [Row.text, hname hr.1, hty, hinitial]
  | function n ps =>
    have hparameters : '\n' ∉ (commaSeparated (ps.map (Parameter.text true))).toList := by
      apply newline_not_mem_commaSeparated
      intro t ht
      obtain ⟨x, hx, rfl⟩ := List.mem_map.mp ht
      exact not_mem_parameterText (hr.2 x hx) (by decide) (by decide)
    simp [Row.text, hname hr.1, hparameters]
  | assign t e => simp [Row.text, hglobal t, hexpr hr]
  | reset t => simp [Row.text, hglobal t]
  | call f => simp [Row.text, hfunction f]
  | print e => simp [Row.text, hexpr hr]
  | loop x low high => simp [Row.text, hglobal x, hexpr hr.1, hexpr hr.2]
  | case c => simp [Row.text, hexpr hr]
  | switch | otherwise | closing => simp [Row.text]

theorem inline_row {r : Row} (hr : r.Readable A) : Inline (r.text p).toList := by
  refine ⟨?_, newline_not_mem_row hp hr⟩
  cases r with
  | assign t e =>
    obtain ⟨c, tail, htext, hc⟩ := starts_global hp t (" := " ++ e.text p).toList
    refine ⟨c, ?_, ?_⟩
    · rw [Row.text, String.append_assoc, String.toList_append, htext]
      rfl
    · rintro rfl
      exact hc rfl
  | _ => simp [Row.text]

end

end

end RpgLowering.Core
