import RpgLowering.Proofs.HandOff
import RpgLowering.Proofs.Lowered

/-! The hand-off format keeps units. The text of a unit can always be read as a document; what was
read from a text with room for some nesting is written with no more of it. -/
namespace RpgLowering
open Document

namespace Document

/-! ### Documents without faults -/

theorem allProper_iff (ds : List Document) : AllProper ds ↔ ∀ d ∈ ds, d.Proper := by
  induction ds with
  | nil => simp [AllProper]
  | cons d ds ih => simp [AllProper, ih]

@[simp] theorem proper_null : Document.null.Proper := trivial

@[simp] theorem proper_bool (b : Bool) : (Document.bool b).Proper := trivial

@[simp] theorem proper_string (s : String) : (ofString s).Proper := rfl

@[simp] theorem proper_uint32 (n : UInt32) : (ofUInt32 n).Proper := by
  rw [ofUInt32_eq_ofInt]
  exact (proper_ofInt _).1

@[simp] theorem proper_array (ds : List Document) :
    (Document.array ds).Proper ↔ ∀ d ∈ ds, d.Proper := allProper_iff ds

@[simp] theorem proper_ofMembers (ms : List (String × Document)) :
    (ofMembers ms).Proper ↔ ∀ m ∈ ms, m.2.Proper := by
  induction ms with
  | nil => simp [ofMembers, Proper, MembersProper]
  | cons m ms ih =>
    simp only [ofMembers, Proper] at ih
    simp [ofMembers, Proper, MembersProper, ih]

@[simp] theorem proper_tagged (name : String) (d : Document) :
    (tagged name d).Proper ↔ d.Proper := by simp [tagged]

theorem proper_ofOption {α : Type} {f : α → Document} {o : Option α}
    (h : ∀ a ∈ o, (f a).Proper) : (ofOption f o).Proper := by
  cases o with
  | none => exact proper_null
  | some a => exact h a rfl

theorem proper_ofList {α : Type} {f : α → Document} {as : List α}
    (h : ∀ a ∈ as, (f a).Proper) : (ofList f as).Proper := by
  simpa [ofList] using h

/-! ### Nesting of documents -/

variable {n : Nat}

@[simp] theorem depth_uint32 (k : UInt32) : (ofUInt32 k).depth = 0 := by
  rw [ofUInt32_eq_ofInt]
  exact (proper_ofInt _).2

@[simp] theorem depth_string (s : String) : (ofString s).depth = 0 := rfl

@[simp] theorem depth_null : Document.null.depth = 0 := rfl

@[simp] theorem depth_bool (b : Bool) : (Document.bool b).depth = 0 := rfl

@[simp] theorem depth_array_le (ds : List Document) :
    (Document.array ds).depth ≤ n + 1 ↔ ∀ d ∈ ds, d.depth ≤ n := by
  rw [depth, Nat.succ_le_succ_iff, itemsDepth_le]

theorem depth_tagged_le (name : String) (d : Document) :
    (tagged name d).depth ≤ n + 1 ↔ d.depth ≤ n := by
  simp [tagged, depth_ofMembers_le]

theorem depth_ofOption_le {α : Type} {f : α → Document} {o : Option α}
    (h : ∀ a ∈ o, (f a).depth ≤ n) : (ofOption f o).depth ≤ n := by
  cases o with
  | none => exact Nat.zero_le n
  | some a => exact h a rfl

theorem depth_ofList_le {α : Type} {f : α → Document} {as : List α}
    (h : ∀ a ∈ as, (f a).depth ≤ n) : (ofList f as).depth ≤ n + 1 := by
  simpa [ofList] using h

end Document

/-! ### Units are written as documents without faults -/

theorem proper_span (s : Span) : s.toDocument.Proper := by
  simp [Span.toDocument, Point.toDocument]

namespace Source

theorem proper_reference {ι : Type} (id : ι → UInt32) (r : Reference ι) :
    (r.toDocument id).Proper := by
  have hid : (ofOption (ofUInt32 ∘ id) r.referred).Proper := proper_ofOption fun i _ => proper_uint32 _
  simp [Reference.toDocument, hid]

theorem proper_type (t : Ty) : t.toDocument.Proper := by
  induction t with
  | array element count ih => simp [Ty.toDocument, ih]
  | _ => simp [Ty.toDocument]

theorem proper_placed {d : Document} (hd : d.Proper) (span : Option Span) :
    (placed span d).Proper := by
  cases span with
  | none => simp [placed, hd]
  | some s => simp [placed, hd, proper_span]

theorem proper_expr {e : Expr} (he : e.NoReal) : e.toDocument.Proper := by
  induction e with
  | int span v => exact proper_placed (by simp [(proper_ofInt _).1]) span
  | real => exact he.elim
  | string | boolean => exact proper_placed (by simp) _
  | data span r => exact proper_placed (by simp [dataReference, proper_reference]) span
  | binary span op left right ihl ihr => exact proper_placed (by simp [ihl he.1, ihr he.2]) span
  | unary span op e ih => exact proper_placed (by simp [ih he]) span
  | assign span target value iht ihv => exact proper_placed (by simp [iht he.1, ihv he.2]) span
  | dec span value digits places ihv ihd ihp =>
    exact proper_placed (by simp [ihv he.1, ihd he.2.1, ihp he.2.2]) span

theorem proper_optionalExpr {o : Option Expr} (ho : ∀ e ∈ o, e.NoReal) :
    (ofOption Expr.toDocument o).Proper := proper_ofOption fun e he => proper_expr (ho e he)

theorem proper_parameterList (l : ParameterList) : l.toDocument.Proper := by
  have hparameters : (ofList (fun r => ofMembers [("param", dataReference r)]) l.parameters).Proper :=
    proper_ofList fun r _ => by simp [dataReference, proper_reference]
  simp [ParameterList.toDocument, hparameters]

mutual

theorem proper_stmt (t : Stmt) (ht : t.NoReal) : t.toDocument.Proper := by
  cases t with
  | plist span l => exact proper_placed (by simp [proper_parameterList]) span
  | eval span target value | move span target value =>
    exact proper_placed (by simp [proper_expr ht.1, proper_expr ht.2]) span
  | execute span r => exact proper_placed (by simp [proper_reference]) span
  | clear span target =>
    have htarget : target.toDocument.Proper := proper_expr ht
    exact proper_placed (by simp [htarget]) span
  | display span factor response =>
    exact proper_placed (by simp [proper_optionalExpr ht.1, proper_optionalExpr ht.2]) span
  | set span v indicators =>
    have hvalue : v.toDocument.Proper := by cases v <;> simp [IndicatorValue.toDocument]
    have hindicators : (ofList ofString indicators).Proper := proper_ofList fun s _ => proper_string s
    exact proper_placed (by simp [hvalue, hindicators]) span
  | select span cases other =>
    have hcases := proper_cases cases ht.1
    have hother := (proper_other other ht.2).1
    exact proper_placed (by simpa [hother] using hcases) span
  | loop span init limit step down body =>
    obtain ⟨hinit, hlimit, hstep, hbody⟩ := ht
    have hinit := proper_expr hinit
    have hlimit := proper_expr hlimit
    have hstep := proper_optionalExpr hstep
    have hbody := proper_stmts body hbody
    exact proper_placed (by simpa [hinit, hlimit, hstep] using hbody) span
  | branch span condition body otherwise =>
    have hcondition := proper_expr ht.1
    have hbody := proper_stmts body ht.2.1
    have helse := (proper_other otherwise ht.2.2).2
    exact proper_placed (by simpa [hcondition, helse] using hbody) span
  | doWhile span condition body =>
    exact proper_placed (by simpa [proper_expr ht.1] using proper_stmts body ht.2) span
  | ret span value =>
    have hvalue : (ofOption Expr.toDocument value).Proper := proper_optionalExpr ht
    exact proper_placed (by simp [hvalue]) span
  | leave span | iterate span => exact proper_placed (proper_string _) span

theorem proper_stmts (ts : List Stmt) (hts : Stmt.AllNoReal ts) :
    ∀ d ∈ Stmt.documents ts, d.Proper := by
  cases ts with
  | nil => exact nofun
  | cons t ts =>
    rw [Stmt.documents, List.forall_mem_cons]
    exact ⟨proper_stmt t hts.1, proper_stmts ts hts.2⟩

theorem proper_cases (cases : List (Expr × List Stmt)) (h : Stmt.CasesNoReal cases) :
    ∀ d ∈ Stmt.caseDocuments cases, d.Proper := by
  match cases with
  | [] => exact nofun
  | (condition, body) :: cases =>
    rw [Stmt.caseDocuments, List.forall_mem_cons]
    refine ⟨?_, proper_cases cases h.2.2⟩
    simpa [proper_expr h.1] using proper_stmts body h.2.1

theorem proper_other (other : Option (List Stmt)) (h : Stmt.OtherNoReal other) :
    (Stmt.otherDocument other).Proper ∧ (Stmt.elseDocument other).Proper := by
  cases other with
  | none => exact ⟨trivial, trivial⟩
  | some body => simpa [Stmt.otherDocument, Stmt.elseDocument] using proper_stmts body h

end

theorem proper_unit {u : CompilationUnit} (hu : u.NoReal) : u.toDocument.Proper := by
  have hspan : ∀ s : Option Span, (ofOption Span.toDocument s).Proper :=
    fun s => proper_ofOption fun s _ => proper_span s
  have hdata : (ofList DataDefinition.toDocument u.data).Proper := proper_ofList fun d hd => by
    have hinitial := proper_optionalExpr (hu.data d hd)
    simp [DataDefinition.toDocument, proper_type, hspan, hinitial]
  have hinStatement : (ofList InStatementDefinition.toDocument u.inStatement).Proper :=
    proper_ofList fun d _ => by simp [InStatementDefinition.toDocument, proper_type, hspan]
  have hsubroutines : (ofList Subroutine.toDocument u.subroutines).Proper :=
    proper_ofList fun x hx => by
      simpa [Subroutine.toDocument, hspan] using proper_stmts x.stmts (hu.subroutines x hx)
  have hentry : (ofOption ParameterList.toDocument u.entry).Proper :=
    proper_ofOption fun l _ => proper_parameterList l
  have hmain := proper_stmts u.main hu.main
  simpa [CompilationUnit.toDocument, hdata, hinStatement, hsubroutines, hentry] using hmain

end Source

/-! ### What was read is written without deeper nesting -/

/-- What was read can be written in the room it was read in. -/
abbrev Fits {α : Type} (toDocument : α → Document) (room : Nat) (read : Reader α) : Prop :=
  Ensures read fun a => (toDocument a).depth ≤ room

variable {room : Nat}

theorem fits_inside {α : Type} {toDocument : α → Document} {read : Nat → Reader α}
    (h : ∀ n, Fits toDocument (n + 1) (read n)) : Fits toDocument room (inside room read) :=
  ensures_inside (P := fun n a => (toDocument a).depth ≤ n) h

theorem ensures_true {α : Type} (read : Reader α) : Ensures read fun _ => True :=
  fun _ _ _ => trivial

theorem ensures_required {α : Type} {key : String} {read : Reader α} {P : α → Prop}
    (h : Ensures read P) : (Record.required key read).Ensures P :=
  ensures_field h (by simp) (by simp)

theorem ensures_defaulted {α : Type} {key : String} {value : α} {read : Reader α} {P : α → Prop}
    (h : Ensures read P) (hvalue : P value) : (Record.defaulted key value read).Ensures P :=
  ensures_field h (by simpa using hvalue) (by simpa using hvalue)

theorem fits_point : Fits Point.toDocument room (Point.read room) := by
  refine fits_inside fun n => (ensures_true _).map fun p _ => ?_
  simp [Point.toDocument, depth_ofMembers_le]

theorem fits_span : Fits Span.toDocument room (Span.read room) := by
  refine fits_inside fun n => ?_
  refine ((ensures_required fits_point).and (ensures_required fits_point)).readAs fun s hs => ?_
  simpa [Span.toDocument, depth_ofMembers_le] using hs

namespace Source

theorem fits_spanField : (spanField room).Ensures fun s => (ofOption Span.toDocument s).depth ≤ room :=
  ensures_field (fun d s hs => depth_ofOption_le (ensures_option fits_span d s hs)) (by simp [ofOption])
    (by simp [ofOption])

theorem fits_reference {ι : Type} {id : Reader ι} (code : ι → UInt32) :
    Fits (Reference.toDocument code) room (Reference.read id room) := by
  refine fits_inside fun n => (ensures_true _).map fun r _ => ?_
  have hreferred : (ofOption (ofUInt32 ∘ code) r.2).depth ≤ n := depth_ofOption_le (by simp)
  simpa [Reference.toDocument, depth_ofMembers_le] using hreferred

/-- Types that hold nothing but numbers are nested twice. -/
theorem fits_flatType {read : Nat → Reader Ty} {β : Type} {r : Record β} {build : β → Ty}
    (hread : ∀ n, read n = inside n fun _ => r.readAs build)
    (hdepth : ∀ b n, (build b).toDocument.depth ≤ n + 2) : Fits Ty.toDocument (room + 1) (read room) := by
  rw [hread]
  exact ensures_inside (P := fun n t => (Ty.toDocument t).depth ≤ n + 1) fun n =>
    (ensures_true _).map fun b _ => hdepth b n

theorem fits_type : Fits Ty.toDocument room (Ty.read room) ∧
    Fits Ty.toDocument (room + 1) (Ty.readArray room) := by
  induction room with
  | zero =>
    exact ⟨ensures_choice (by simp [Ty.variants, Variant.Ensures, Ty.toDocument]), ensures_unreadable⟩
  | succ room ih =>
    refine ⟨ensures_choice ?_, ?_⟩
    · simp only [Ty.variants, List.forall_mem_cons, Variant.Ensures, forall_const]
      refine ⟨?_, ?_, by simp [Ty.toDocument], by simp [Ty.toDocument], ih.2, ?_,
        List.forall_mem_nil _⟩
      · exact fits_flatType (fun n => rfl) fun b n => by
          simp [Ty.toDocument, depth_tagged_le, depth_ofMembers_le]
      · exact fits_flatType (fun n => rfl) fun b n => by
          simp [Ty.toDocument, depth_tagged_le, depth_ofMembers_le]
      · exact fits_flatType (fun n => rfl) fun b n => by
          simp [Ty.toDocument, depth_tagged_le, depth_ofMembers_le]
    · refine ((ensures_required ih.1).and (ensures_required (ensures_true _))).readAs fun c hc => ?_
      simpa [Ty.toDocument, depth_tagged_le, depth_ofMembers_le] using hc.1

section
variable {α β : Type} {toDocument : α → Document}

/-- Whatever its span, the node is written around a document that fits into the room. -/
def Within (toDocument : α → Document) (room : Nat) (k : Unplaced α) : Prop :=
  ∃ d, d.depth ≤ room ∧ ∀ s, toDocument (k s) = placed s d

theorem fits_placed {kind : Reader (Unplaced α)} (h : Ensures kind (Within toDocument room)) :
    Fits toDocument (room + 1) (((Record.required "kind" kind).and (spanField room)).readAs
      fun (kind, span) => kind span) := by
  refine ((ensures_required h).and fits_spanField).readAs fun c hc => ?_
  obtain ⟨k, span⟩ := c
  obtain ⟨⟨d, hd, hk⟩, hspan⟩ := hc
  simp only [hk]
  cases span with
  | none => simpa [placed, depth_ofMembers_le] using hd
  | some s => simpa [placed, depth_ofMembers_le] using ⟨hd, hspan⟩

theorem ensures_kind {read : Reader β} {content : β → Document} (name : String)
    {build : β → Unplaced α} (h : Fits content room read)
    (hdocument : ∀ b s, toDocument (build b s) = placed s (tagged name (content b))) :
    Ensures (fun d => (read d).map build) (Within toDocument (room + 1)) :=
  h.map fun b hb => ⟨tagged name (content b), (depth_tagged_le _ _).mpr hb, hdocument b⟩

end

/-- What expressions hold is written in the room it was read in. -/
structure ExprFits (room : Nat) : Prop where
  expr : Fits Expr.toDocument room (Expr.read room)
  kind : Ensures (Expr.readKind room) (Within Expr.toDocument room)
  two : Fits (fun c => .array [c.1.toDocument, c.2.toDocument]) room (Expr.readTwo room)
  assignment : Fits (fun c => ofMembers [("target", c.1.toDocument), ("value", c.2.toDocument)]) room
    (Expr.readAssignment room)
  dec : Fits (fun c => ofMembers [("value", c.1.toDocument), ("int_digits", c.2.1.toDocument),
    ("decimal_places", c.2.2.toDocument)]) room (Expr.readDec room)

theorem depth_ofReal (x : Binary64) : (ofReal x).depth = 0 := by
  unfold ofReal
  split <;> rfl

theorem ExprFits.kinds (h : ExprFits room) :
    ∀ v ∈ Expr.kinds room, v.Ensures true (Within Expr.toDocument (room + 1)) := by
  have hflat : ∀ {β : Type} {read : Reader β} {content : β → Document} (name : String)
      {build : β → Unplaced Expr}, (∀ b, (content b).depth = 0) →
      (∀ b s, (build b s).toDocument = placed s (tagged name (content b))) →
      Ensures (fun d => (read d).map build) (Within Expr.toDocument (room + 1)) := by
    intro β read content name build hdepth hdocument
    have hfits : ∀ b, (content b).depth ≤ room := fun b => (Nat.le_of_eq (hdepth b)).trans (Nat.zero_le room)
    exact ensures_kind name (fun _ b _ => hfits b) hdocument
  have hbinary : ∀ op : BinaryOp, Ensures (fun d => (Expr.readTwo room d).map
      fun c s => .binary s op c.1 c.2) (Within Expr.toDocument (room + 1)) :=
    fun op => ensures_kind op.tag h.two fun b s => rfl
  have hunary : ∀ op : UnaryOp, Ensures (fun d => (Expr.read room d).map
      fun e s => .unary s op e) (Within Expr.toDocument (room + 1)) :=
    fun op => ensures_kind op.tag h.expr fun b s => rfl
  simp only [Expr.kinds, Expr.variants, List.forall_mem_cons, Variant.Ensures, forall_const]
  refine ⟨?_, ?_, ?_, ?_, ?_, hbinary .plus, hbinary .minus, hbinary .mult, hbinary .div,
    hbinary .equality, hbinary .different, hbinary .lessThan, hbinary .greaterThan, hunary .not,
    ?_, ?_, hunary .char, hunary .int, hunary .trim, hunary .len, List.forall_mem_nil _⟩
  · exact hflat "int_literal" (fun v => (proper_ofInt v.toInt).2) fun v s => rfl
  · exact hflat "real_literal" depth_ofReal fun x s => rfl
  · exact hflat "string_literal" depth_string fun t s => rfl
  · exact hflat "boolean_literal" depth_bool fun b s => rfl
  · exact ensures_kind "data_ref" (fits_reference DataId.val) fun r s => rfl
  · exact ensures_kind "assignment" h.assignment fun c s => rfl
  · exact ensures_kind "dec" h.dec fun c s => rfl

theorem exprFits : ExprFits room := by
  induction room with
  | zero =>
    exact {
      expr := ensures_unreadable
      kind := ensures_choice (by simp [Expr.variants, Variant.Ensures])
      two := ensures_unreadable
      assignment := ensures_unreadable
      dec := ensures_unreadable }
  | succ room ih =>
    have hfield : ∀ key, (Record.required key (Expr.read room)).Ensures
        fun e => e.toDocument.depth ≤ room := fun _ => ensures_required ih.expr
    exact {
      expr := fits_placed ih.kind
      kind := ensures_choice ih.kinds
      two := fun d c hc => by simpa using ensures_pair ih.expr ih.expr d c hc
      assignment := fun d c hc => by
        simpa [depth_ofMembers_le] using ((hfield _).and (hfield _)).read d c hc
      dec := fun d c hc => by
        simpa [depth_ofMembers_le] using ((hfield _).and ((hfield _).and (hfield _))).read d c hc }

theorem fits_parameterList : Fits ParameterList.toDocument room (ParameterList.read room) := by
  have hparameter : ∀ {n}, Fits (fun r => ofMembers [("param", dataReference r)]) n
      (ParameterList.readParameter n) := by
    intro n
    refine fits_inside fun n d r hr => ?_
    simpa [depth_ofMembers_le, dataReference] using
      (ensures_required (fits_reference DataId.val)).read d r hr
  have hparameters : ∀ {n}, Fits (ofList fun r => ofMembers [("param", dataReference r)]) n
      (inside n fun n => readItems (ParameterList.readParameter n)) := fun {n} =>
    fits_inside fun n d rs hrs => depth_ofList_le (ensures_items hparameter d rs hrs)
  refine fits_inside fun n => ?_
  refine ((ensures_required hparameters).and (ensures_defaulted (ensures_true _) trivial)).readAs
    fun l hl => ?_
  simpa [ParameterList.toDocument, depth_ofMembers_le] using hl.1

theorem fits_optionalExpr (key : String) : (Record.optional key (Expr.read room)).Ensures
    fun o => (ofOption Expr.toDocument o).depth ≤ room :=
  ensures_field (fun d o ho => depth_ofOption_le (ensures_option exprFits.expr d o ho))
    (by simp [ofOption]) (by simp [ofOption])

theorem fits_exprField (key : String) : (Record.required key (Expr.read room)).Ensures
    fun e => e.toDocument.depth ≤ room := ensures_required exprFits.expr

theorem fits_transfer : Fits (fun c : Expr × Expr =>
    ofMembers [("target", c.1.toDocument), ("expression", c.2.toDocument)]) room
    (readTransfer room) := by
  refine fits_inside fun n d c hc => ?_
  simpa [depth_ofMembers_le] using ((fits_exprField _).and (fits_exprField _)).read d c hc

theorem fits_display : Fits (fun c : Option Expr × Option Expr =>
    ofMembers [("factor1", ofOption Expr.toDocument c.1),
      ("response", ofOption Expr.toDocument c.2)]) room (readDisplay room) := by
  refine fits_inside fun n d c hc => ?_
  simpa [depth_ofMembers_le] using ((fits_optionalExpr _).and (fits_optionalExpr _)).read d c hc

theorem fits_set : Fits (fun c : IndicatorValue × List String =>
    ofMembers [("value_set", c.1.toDocument), ("indicators", ofList ofString c.2)]) room
    (readSet room) := by
  have hindicators : ∀ {n}, Fits (ofList ofString) n (inside n fun _ => readItems readString) :=
    fun {n} => fits_inside fun n _ _ _ => depth_ofList_le (by simp)
  have hvalue : ∀ v : IndicatorValue, v.toDocument.depth = 0 := fun v => by cases v <;> rfl
  refine fits_inside fun n d c hc => ?_
  have hboth := ((ensures_required (ensures_true _)).and (ensures_required hindicators)).read d c hc
  simpa [depth_ofMembers_le, hvalue] using hboth.2

/-- What statements hold is written in the room it was read in. -/
structure StmtFits (room : Nat) : Prop where
  stmt : Fits Stmt.toDocument room (Stmt.read room)
  kind : Ensures (Stmt.readKind room) (Within Stmt.toDocument room)
  block : Fits (fun body => .array (Stmt.documents body)) room (Stmt.readBlock room)
  case : Fits caseDocument room (Stmt.readCase room)
  cases : Fits (fun cases => .array (Stmt.caseDocuments cases)) room (Stmt.readCases room)
  other : Fits (fun body => ofMembers [("body", .array (Stmt.documents body))]) room
    (Stmt.readOther room)
  select : Ensures (Stmt.readSelect room) (Within Stmt.toDocument (room + 1))
  loop : Ensures (Stmt.readLoop room) (Within Stmt.toDocument (room + 1))
  branch : Ensures (Stmt.readBranch room) (Within Stmt.toDocument (room + 1))
  doWhile : Ensures (Stmt.readDoWhile room) (Within Stmt.toDocument (room + 1))

theorem StmtFits.kinds (h : StmtFits room) :
    ∀ v ∈ Stmt.kinds room, v.Ensures true (Within Stmt.toDocument (room + 1)) := by
  have hplain : ∀ (name : String) {k : Unplaced Stmt},
      (∀ s, (k s).toDocument = placed s (ofString name)) → Within Stmt.toDocument (room + 1) k :=
    fun name k hk => ⟨ofString name, by simp, hk⟩
  simp only [Stmt.kinds, Stmt.variants, List.forall_mem_cons, Variant.Ensures, forall_const]
  refine ⟨?_, ?_, ?_, ?_, ?_, ?_, h.select, h.loop, h.branch, h.doWhile, ?_, ?_,
    hplain "leave" fun _ => rfl, hplain "iter" fun _ => rfl, List.forall_mem_nil _⟩
  · exact ensures_kind "plist" fits_parameterList fun l s => rfl
  · exact ensures_kind "eval" fits_transfer fun c s => rfl
  · refine ensures_kind "execute_subroutine" (fits_inside fun n d r hr => ?_) fun r s => rfl
    simpa [depth_ofMembers_le] using (ensures_required (fits_reference SubroutineId.val)).read d r hr
  · refine ensures_kind "clear" (fits_inside fun n d e he => ?_) fun e s => rfl
    simpa [depth_ofMembers_le] using (fits_exprField _).read d e he
  · exact ensures_kind "display" fits_display fun c s => rfl
  · exact ensures_kind "set" fits_set fun c s => rfl
  · exact ensures_kind "move" fits_transfer fun c s => rfl
  · refine ensures_kind "return" (fits_inside fun n d o ho => ?_) fun o s => rfl
    simpa [depth_ofMembers_le] using (fits_optionalExpr _).read d o ho

theorem ensures_held {β : Type} {r : Record β} {P : β → Prop} {build : β → Unplaced Stmt}
    (name : String) {members : β → List (String × Document)} (hr : r.Ensures P)
    (hmembers : ∀ b, P b → ∀ m ∈ members b, m.2.depth ≤ room)
    (hdocument : ∀ b s, (build b s).toDocument = placed s (tagged name (ofMembers (members b)))) :
    Ensures (r.readAs build) (Within Stmt.toDocument (room + 2)) := by
  refine hr.readAs fun b hb => ⟨_, ?_, hdocument b⟩
  rw [depth_tagged_le, depth_ofMembers_le]
  exact hmembers b hb

theorem stmtFits : StmtFits room := by
  induction room with
  | zero =>
    exact {
      stmt := ensures_unreadable
      kind := ensures_choice (by
        simpa [Stmt.variants, Variant.Ensures] using
          ⟨⟨ofString "leave", by simp, fun _ => rfl⟩, ⟨ofString "iter", by simp, fun _ => rfl⟩⟩)
      block := ensures_unreadable
      case := ensures_unreadable
      cases := ensures_unreadable
      other := ensures_unreadable
      select := ensures_unreadable
      loop := ensures_unreadable
      branch := ensures_unreadable
      doWhile := ensures_unreadable }
  | succ room ih =>
    have hbody : ∀ key, (Record.required key (Stmt.readBlock room)).Ensures
        fun body => (Document.array (Stmt.documents body)).depth ≤ room :=
      fun _ => ensures_required ih.block
    have hother : (Record.optional "other" (Stmt.readOther room)).Ensures
        fun other => (Stmt.otherDocument other).depth ≤ room := by
      refine ensures_field (fun d o ho => ?_) (by simp [Stmt.otherDocument])
        (by simp [Stmt.otherDocument])
      have hsome := ensures_option ih.other d o ho
      cases o with
      | none => exact Nat.zero_le room
      | some body => exact hsome body rfl
    have helse : (Record.optional "else_body" (Stmt.readBlock room)).Ensures
        fun other => (Stmt.elseDocument other).depth ≤ room := by
      refine ensures_field (fun d o ho => ?_) (by simp [Stmt.elseDocument])
        (by simp [Stmt.elseDocument])
      have hsome := ensures_option ih.block d o ho
      cases o with
      | none => exact Nat.zero_le room
      | some body => exact hsome body rfl
    exact {
      stmt := fits_placed ih.kind
      kind := ensures_choice ih.kinds
      block := fun d body hbody => by
        simp only [Stmt.documents_eq_map]
        exact depth_ofList_le (ensures_items ih.stmt d body hbody)
      case := fun d c hc => by
        simpa [caseDocument, depth_ofMembers_le] using
          ((fits_exprField _).and (hbody _)).read d c hc
      cases := fun d cases hcases => by
        simp only [Stmt.caseDocuments_eq_map]
        exact depth_ofList_le (ensures_items ih.case d cases hcases)
      other := fun d body h => by simpa [depth_ofMembers_le] using (hbody _).read d body h
      select := ensures_held "select" ((ensures_required ih.cases).and hother)
        (fun b hb => by simpa using hb) fun b s => rfl
      loop := ensures_held "for" ((fits_exprField _).and ((fits_exprField _).and
        ((fits_optionalExpr _).and ((ensures_defaulted (ensures_true _) trivial).and (hbody _)))))
        (fun b hb => by simpa using hb) fun b s => rfl
      branch := ensures_held "if" ((fits_exprField _).and ((hbody _).and helse))
        (fun b hb => by simpa using hb) fun b s => rfl
      doWhile := ensures_held "do_while" ((fits_exprField _).and (hbody _))
        (fun b hb => by simpa using hb) fun b s => rfl }

/-! ### Units -/

theorem fits_block : Fits (fun body => .array (Stmt.documents body)) room (Stmt.readBlock room) :=
  stmtFits.block

theorem fits_data : Fits DataDefinition.toDocument room (DataDefinition.read room) := by
  refine fits_inside fun n => ?_
  refine ((ensures_required (ensures_true _)).and ((ensures_required (ensures_true _)).and
    ((ensures_required fits_type.1).and ((fits_optionalExpr _).and fits_spanField)))).readAs
    fun d hd => ?_
  simpa [DataDefinition.toDocument, depth_ofMembers_le] using hd

theorem fits_inStatement :
    Fits InStatementDefinition.toDocument room (InStatementDefinition.read room) := by
  refine fits_inside fun n => ?_
  refine ((ensures_required (ensures_true _)).and ((ensures_required (ensures_true _)).and
    ((ensures_required fits_type.1).and fits_spanField))).readAs fun d hd => ?_
  simpa [InStatementDefinition.toDocument, depth_ofMembers_le] using hd

/-- The statements of a subroutine may be left out, but they are always written. -/
theorem fits_subroutine : Fits Subroutine.toDocument (room + 2) (Subroutine.read (room + 2)) := by
  have hempty : (Document.array (Stmt.documents [])).depth ≤ room + 1 := by simp [Stmt.documents]
  refine ((ensures_required (ensures_true _)).and ((ensures_required (ensures_true _)).and
    ((ensures_defaulted fits_block hempty).and fits_spanField))).readAs fun x hx => ?_
  simpa [Subroutine.toDocument, depth_ofMembers_le] using hx

theorem fits_main : Fits (fun body => ofMembers [("stmts", .array (Stmt.documents body))]) (room + 2)
    (readMain (room + 2)) := by
  have hempty : (Document.array (Stmt.documents [])).depth ≤ room + 1 := by simp [Stmt.documents]
  intro d body hbody
  simpa [depth_ofMembers_le] using (ensures_defaulted fits_block hempty).read d body hbody

theorem fits_list {α : Type} {toDocument : α → Document} {read : Reader α}
    (h : Fits toDocument room read) (key : String) :
    (Record.defaulted key [] (readItems read)).Ensures
      fun as => (ofList toDocument as).depth ≤ room + 1 :=
  ensures_defaulted (fun d as has => depth_ofList_le (ensures_items h d as has))
    (depth_ofList_le nofun)

theorem fits_unit : Fits CompilationUnit.toDocument (room + 4) (CompilationUnit.read (room + 4)) := by
  have hentry : (Record.optional "entry_plist" (ParameterList.read (room + 3))).Ensures
      fun o => (ofOption ParameterList.toDocument o).depth ≤ room + 3 :=
    ensures_field (fun d o ho => depth_ofOption_le (ensures_option fits_parameterList d o ho))
      (by simp [ofOption]) (by simp [ofOption])
  have hnone : (ofMembers [("stmts", .array (Stmt.documents []))]).depth ≤ room + 3 := by
    simp [depth_ofMembers_le, Stmt.documents]
  refine ((fits_list fits_data _).and ((fits_list fits_inStatement _).and
    ((fits_list fits_subroutine _).and ((ensures_defaulted fits_main hnone).and hentry)))).readAs
    fun u hu => ?_
  simpa [CompilationUnit.toDocument, depth_ofMembers_le] using hu

theorem load_eq_ok {text : String} {u : CompilationUnit} :
    CompilationUnit.load text = .ok u ↔ readText (CompilationUnit.read deepest) text = .ok u := by
  unfold CompilationUnit.load
  split <;> simp_all

theorem okIff_load {P : Prop} {text : String} {u : CompilationUnit}
    (h : OkIff P (readText (CompilationUnit.read deepest) text) u) :
    OkIff P (CompilationUnit.load text) u where
  ok hp := load_eq_ok.mpr (h.ok hp)
  error hn := by
    obtain ⟨e, he⟩ := h.error hn
    exact ⟨.generic e.message, by rw [CompilationUnit.load, he]⟩

theorem depth_of_load {text : String} {u : CompilationUnit} (h : CompilationUnit.load text = .ok u) :
    u.toDocument.depth ≤ 127 := by
  have hread := load_eq_ok.mp h
  unfold readText at hread
  generalize parse text.toList = result at hread
  obtain ⟨d, ends⟩ := result
  obtain ⟨v, hv, hend⟩ := bind_eq_ok.mp hread
  have hvu : v = u := by
    split at hend
    · exact Except.ok.inj hend
    · cases hend
  exact hvu ▸ fits_unit d v hv

/-- A unit without real literals is loaded from its text as it is, if the text is nested at most
127 levels deep, and refused if not. A unit that was loaded from some text is never refused. -/
theorem load_print {u : CompilationUnit} (hu : u.NoReal) (form : Form) :
    OkIff (nesting (u.print form) ≤ 127) (CompilationUnit.load (u.print form)) u ∧
      ∀ text, CompilationUnit.load text = .ok u → CompilationUnit.load (u.print form) = .ok u := by
  have hproper : u.toDocument.Proper := proper_unit hu
  have hread : OkIff (u.toDocument.depth ≤ 127) (CompilationUnit.read deepest u.toDocument) u :=
    readsAt_unit hu
  have htext : readText (CompilationUnit.read deepest) (u.print form) =
      CompilationUnit.read deepest u.toDocument := by
    simp only [readText, CompilationUnit.print, parse_print form hproper, if_true]
    cases CompilationUnit.read deepest u.toDocument <;> rfl
  rw [← htext] at hread
  have hload := okIff_load hread
  rw [CompilationUnit.print, nesting_print form hproper]
  exact ⟨hload, fun text htext => hload.ok (depth_of_load htext)⟩

/-- One unit is loaded again; another, whose only declaration has a type nested seventy times, is
refused. -/
theorem load_print_tally : (Core.tally.NoReal ∧
      CompilationUnit.load (Core.tally.print .pretty) = .ok Core.tally) ∧
    ∃ u : CompilationUnit, u.NoReal ∧ u.data.length = 1 ∧
      ∃ e, CompilationUnit.load (u.print .pretty) = .error e := by
  constructor
  · have hreal : Core.tally.NoReal := by
      constructor <;>
        simp [Core.tally, Expr.NoReal, Stmt.AllNoReal, Stmt.NoReal, Stmt.CasesNoReal,
          Stmt.OtherNoReal]
    refine ⟨hreal, (load_print hreal .pretty).1.ok ?_⟩
    rw [CompilationUnit.print, nesting_print _ (proper_unit hreal)]
    decide
  · let u : CompilationUnit :=
      { data := [{ id := ⟨0⟩, name := "A", ty := Nat.repeat (Ty.array · 1) 70 .boolean }] }
    have hreal : u.NoReal := ⟨by simp [u], by simp [u], trivial⟩
    refine ⟨u, hreal, rfl, (load_print hreal .pretty).1.error ?_⟩
    rw [CompilationUnit.print, nesting_print _ (proper_unit hreal)]
    decide +kernel

end Source

end RpgLowering
