import RpgLowering.Source.Read
import RpgLowering.Source.Write
import RpgLowering.Proofs.Reading

/-! Source units written as documents and read again. -/
namespace RpgLowering
open Document

namespace Document

/-! ### Numbers and texts -/

/-- The numeral of an integer stands for it. -/
theorem exists_numeral_ofInt (n : Int) : ∃ literal, ofInt n = .number literal ∧
    NumberWord literal ∧ (Numeral.ofChars? literal).bind Numeral.integer? = some n := by
  obtain ⟨hplain, hminus⟩ := Numeral.ofChars?_toDigits n.natAbs
  have hvalue := Numeral.ofDigits_toDigits n.natAbs
  have hdigit : ∀ c ∈ Nat.toDigits 10 n.natAbs, isWordChar c = true ∧ c.isDigit = true := by
    intro c hc
    have hc := Numeral.isDigit_toDigits c hc
    simp [isWordChar, Char.isAlphanum, hc]
  have hword : ∀ literal, (Numeral.ofChars? literal).isSome → (∀ c ∈ literal, isWordChar c = true) →
      literal ≠ [] → NumberWord literal := by
    intro literal hsome hchars hne
    refine ⟨hne, hchars, ?_⟩
    unfold wordToken
    rw [if_pos hsome]
    split
    · subst_vars; revert hsome; decide
    split
    · subst_vars; revert hsome; decide
    split
    · subst_vars; revert hsome; decide
    rfl
  by_cases hn : n < 0
  · have hzero : n.natAbs ≠ 0 := by omega
    have hneg : -(n.natAbs : Int) = n := by omega
    refine ⟨'-' :: Nat.toDigits 10 n.natAbs, by rw [ofInt, if_pos hn], hword _ ?_ ?_ ?_, ?_⟩
    · simp [hminus]
    · intro c hc
      rcases List.mem_cons.mp hc with rfl | hc
      · rfl
      · exact (hdigit c hc).1
    · simp
    · simp only [hminus, Option.bind_some, Numeral.integer?, hvalue, if_neg hzero, hneg]
      rfl
  · have hpos : (n.natAbs : Int) = n := by omega
    refine ⟨Nat.toDigits 10 n.natAbs, by rw [ofInt, if_neg hn], hword _ ?_ ?_ ?_, ?_⟩
    · simp [hplain]
    · exact fun c hc => (hdigit c hc).1
    · exact Nat.toDigits_ne_nil
    · simp only [hplain, Option.bind_some, Numeral.integer?, hvalue, hpos]
      rfl

theorem readInteger_ofInt {low high n : Int} (hl : low ≤ n) (hh : n ≤ high) :
    readInteger low high (ofInt n) = .ok n := by
  obtain ⟨literal, hn, -, hliteral⟩ := exists_numeral_ofInt n
  simp [hn, readInteger, hliteral, hl, hh]

theorem ofUInt32_eq_ofInt (n : UInt32) : ofUInt32 n = ofInt (n.toNat : Int) := by
  simp [ofUInt32, Document.ofNat, ofInt]

theorem readUInt32_ofUInt32 (n : UInt32) : readUInt32 (ofUInt32 n) = .ok n := by
  have hlt : n.toNat < 2 ^ 32 := n.toNat_lt
  have hread : readInteger 0 0xffffffff (ofInt (n.toNat : Int)) = .ok (n.toNat : Int) :=
    readInteger_ofInt (by omega) (by omega)
  simp [readUInt32, ofUInt32_eq_ofInt, hread, bind, Except.bind]

theorem readInt64_ofInt (v : Int64) : readInt64 (ofInt v.toInt) = .ok v := by
  have hlow : -0x8000000000000000 ≤ v.toInt := v.le_toInt
  have hhigh : v.toInt < 0x8000000000000000 := v.toInt_lt
  have hread : readInteger (-0x8000000000000000) 0x7fffffffffffffff (ofInt v.toInt) =
      .ok v.toInt := readInteger_ofInt hlow (by omega)
  simp [readInt64, hread, bind, Except.bind]

theorem proper_ofInt (n : Int) : (ofInt n).Proper ∧ (ofInt n).depth = 0 := by
  obtain ⟨literal, hn, hword, -⟩ := exists_numeral_ofInt n
  rw [hn]
  exact ⟨hword, rfl⟩

variable {room : Nat}

theorem readsAt_uint32 (n : UInt32) : ReadsAt room readUInt32 (ofUInt32 n) n :=
  readsAt_of_ok (by rw [ofUInt32_eq_ofInt, (proper_ofInt _).2]) (readUInt32_ofUInt32 n)

theorem readsAt_int64 (v : Int64) : ReadsAt room readInt64 (ofInt v.toInt) v :=
  readsAt_of_ok (proper_ofInt _).2 (readInt64_ofInt v)

theorem readsAt_string (s : String) : ReadsAt room readString (ofString s) s :=
  readsAt_of_ok rfl rfl

theorem readsAt_unreadable {α : Type} {d : Document} {a : α} (hd : 0 < d.depth) :
    ReadsAt 0 unreadable d a :=
  ⟨fun hle => by omega, fun _ => exists_unreadable d⟩

theorem readsAt_bool (b : Bool) : ReadsAt room readBool (.bool b) b := readsAt_of_ok rfl rfl

theorem depth_ofMembers_pos (ms : List (String × Document)) : 0 < (ofMembers ms).depth :=
  Nat.succ_pos _

end Document

variable {room : Nat}

theorem readsAt_point (p : Point) : ReadsAt room (Point.read room) p.toDocument p := by
  refine readsAt_inside (depth_ofMembers_pos _) fun r => ?_
  exact (takes_cons (readsAt_uint32 p.line) (takes_field (readsAt_uint32 p.column))
    (by simp)).readAs _

theorem readsAt_span (s : Span) : ReadsAt room (Span.read room) s.toDocument s := by
  refine readsAt_inside (depth_ofMembers_pos _) fun r => ?_
  exact (takes_cons (readsAt_point s.start) (takes_field (readsAt_point s.stop)) (by simp)).readAs _

namespace Source

theorem readsAt_dataId {n : Nat} (id : DataId) : ReadsAt n DataId.read (ofUInt32 id.val) id :=
  (readsAt_uint32 id.val).map DataId.mk

theorem readsAt_subroutineId {n : Nat} (id : SubroutineId) :
    ReadsAt n SubroutineId.read (ofUInt32 id.val) id :=
  (readsAt_uint32 id.val).map SubroutineId.mk

theorem readsAt_reference {ι : Type} {id : Reader ι} {code : ι → UInt32}
    (hid : ∀ n i, ReadsAt n id (ofUInt32 (code i)) i) (r : Reference ι) :
    ReadsAt room (Reference.read id room) (r.toDocument code) r := by
  refine readsAt_inside (depth_ofMembers_pos _) fun n => ?_
  have hreferred : ReadsAt n (readOption id) (ofOption (ofUInt32 ∘ code) r.referred) r.referred :=
    readsAt_option nofun fun i _ => hid n i
  exact (takes_cons (readsAt_string r.name) (takes_field hreferred) (by simp)).readAs _

theorem readsAt_dataReference (r : Reference DataId) :
    ReadsAt room (Reference.read DataId.read room) (dataReference r) r :=
  readsAt_reference (fun _ => readsAt_dataId) r

/-! ### Types -/

theorem readsAt_type (t : Ty) : ReadsAt room (Ty.read room) t.toDocument t := by
  induction t generalizing room with
  | boolean | timestamp => cases room <;> exact readsAt_plain rfl
  | string length varying =>
    cases room with
    | zero => exact readsAt_tagged_zero
    | succ room =>
      refine readsAt_tagged rfl (readsAt_inside (depth_ofMembers_pos _) fun n => ?_)
      exact (takes_cons (readsAt_uint32 length) (takes_field (readsAt_bool varying))
        (by simp)).readAs _
  | number entire decimals =>
    cases room with
    | zero => exact readsAt_tagged_zero
    | succ room =>
      refine readsAt_tagged rfl (readsAt_inside (depth_ofMembers_pos _) fun n => ?_)
      exact (takes_cons (readsAt_uint32 entire) (takes_field (readsAt_uint32 decimals))
        (by simp)).readAs _
  | dataStructure size =>
    cases room with
    | zero => exact readsAt_tagged_zero
    | succ room =>
      refine readsAt_tagged rfl (readsAt_inside (depth_ofMembers_pos _) fun n => ?_)
      exact (takes_field (readsAt_uint32 size)).readAs _
  | array element count ih =>
    cases room with
    | zero => exact readsAt_tagged_zero
    | succ room =>
      refine readsAt_tagged rfl ?_
      cases room with
      | zero => exact readsAt_unreadable (depth_ofMembers_pos _)
      | succ room =>
        exact (takes_cons ih (takes_field (readsAt_uint32 count)) (by simp)).readAs _

/-! ### Expressions -/

/-- No literal of the expression is a real number. -/
def Expr.NoReal : Expr → Prop
  | .real .. => False
  | .int .. | .string .. | .boolean .. | .data .. => True
  | .binary _ _ left right => left.NoReal ∧ right.NoReal
  | .unary _ _ e => e.NoReal
  | .assign _ target value => target.NoReal ∧ value.NoReal
  | .dec _ value digits places => value.NoReal ∧ digits.NoReal ∧ places.NoReal

/-- A node is read with its span, which may be left out. -/
theorem readsAt_placed {β : Type} {kind : Reader (Unplaced β)} {d : Document} {k : Unplaced β}
    (hk : ReadsAt room kind d k) (span : Option Span) :
    ReadsAt (room + 1) (((Record.required "kind" kind).and (spanField room)).readAs
      fun (kind, span) => kind span) (placed span d) (k span) := by
  cases span with
  | none => exact (takes_cons hk takes_absent nofun).readAs fun (kind, span) => kind span
  | some s =>
    have hspan : ReadsAt room (readOption (Span.read room)) s.toDocument (some s) :=
      readsAt_option (f := Span.toDocument) nofun (o := some s) fun s _ => readsAt_span s
    have hrest : (spanField room).Takes room [("span", s.toDocument)] (some s) := takes_field hspan
    have hall : ((Record.required "kind" kind).and (spanField room)).Takes room
        [("kind", d), ("span", s.toDocument)] (k, some s) := takes_cons hk hrest (by simp)
    exact hall.readAs fun (kind, span) => kind span

theorem depth_placed_pos (span : Option Span) (d : Document) : 0 < (placed span d).depth := by
  cases span <;> exact depth_ofMembers_pos _

/-- The kinds of expressions at one level of nesting. -/
def Expr.kinds (n : Nat) : List (Variant (Unplaced Expr)) :=
  Expr.variants n (Expr.read n) (Expr.readTwo n) (Expr.readAssignment n) (Expr.readDec n)

theorem readsAt_exprNode (name : String) {content : Document} {k : Unplaced Expr}
    {held : Nat → Reader (Unplaced Expr)}
    (hfind : ∀ n, (Expr.kinds n).find? (·.name == name) = some (.holding name (held n)))
    (hheld : ∀ n, ReadsAt n (held n) content k) (span : Option Span) :
    ReadsAt room (Expr.read room) (placed span (tagged name content)) (k span) := by
  cases room with
  | zero => exact readsAt_unreadable (depth_placed_pos _ _)
  | succ room =>
    refine readsAt_placed ?_ span
    cases room with
    | zero => exact readsAt_tagged_zero
    | succ n => exact readsAt_tagged (hfind n) (hheld n)

theorem find?_binary (op : BinaryOp) (n : Nat) :
    (Expr.kinds n).find? (·.name == op.tag) = some (.holding op.tag fun d =>
      (Expr.readTwo n d).map fun (l, r) s => .binary s op l r) := by
  cases op <;> rfl

theorem find?_unary (op : UnaryOp) (n : Nat) :
    (Expr.kinds n).find? (·.name == op.tag) = some (.holding op.tag fun d =>
      (Expr.read n d).map fun e s => .unary s op e) := by
  cases op <;> rfl

theorem readsAt_expr {e : Expr} (he : e.NoReal) :
    ReadsAt room (Expr.read room) e.toDocument e := by
  induction e generalizing room with
  | int span v =>
    exact readsAt_exprNode "int_literal" (fun _ => rfl) (fun _ => (readsAt_int64 v).map _) span
  | real span x => exact he.elim
  | string span t =>
    exact readsAt_exprNode "string_literal" (fun _ => rfl) (fun _ => (readsAt_string t).map _) span
  | boolean span b =>
    exact readsAt_exprNode "boolean_literal" (fun _ => rfl) (fun _ => (readsAt_bool b).map _) span
  | data span r =>
    exact readsAt_exprNode "data_ref" (fun _ => rfl) (fun _ => (readsAt_dataReference r).map _) span
  | binary span op left right ihl ihr =>
    have htwo : ∀ n, ReadsAt n (Expr.readTwo n) (.array [left.toDocument, right.toDocument])
        (left, right) := by
      intro n
      cases n with
      | zero => exact readsAt_unreadable (Nat.succ_pos _)
      | succ n => exact readsAt_pair (ihl he.1) (ihr he.2)
    exact readsAt_exprNode op.tag (find?_binary op) (fun n => (htwo n).map _) span
  | unary span op e ih =>
    exact readsAt_exprNode op.tag (find?_unary op) (fun _ => (ih he).map _) span
  | assign span target value iht ihv =>
    have hheld : ∀ n, ReadsAt n (Expr.readAssignment n)
        (ofMembers [("target", target.toDocument), ("value", value.toDocument)])
        (target, value) := by
      intro n
      cases n with
      | zero => exact readsAt_unreadable (depth_ofMembers_pos _)
      | succ n => exact (takes_cons (iht he.1) (takes_field (ihv he.2)) (by simp)).read
    exact readsAt_exprNode "assignment" (fun _ => rfl) (fun n => (hheld n).map _) span
  | dec span value digits places ihv ihd ihp =>
    have hheld : ∀ n, ReadsAt n (Expr.readDec n)
        (ofMembers [("value", value.toDocument), ("int_digits", digits.toDocument),
          ("decimal_places", places.toDocument)]) (value, digits, places) := by
      intro n
      cases n with
      | zero => exact readsAt_unreadable (depth_ofMembers_pos _)
      | succ n =>
        exact (takes_cons (ihv he.1) (takes_cons (ihd he.2.1) (takes_field (ihp he.2.2))
          (by simp)) (by simp)).read
    exact readsAt_exprNode "dec" (fun _ => rfl) (fun n => (hheld n).map _) span

/-! ### Statements -/

mutual

def Stmt.NoReal : Stmt → Prop
  | .plist .. | .execute .. | .set .. | .leave _ | .iterate _ => True
  | .eval _ target value | .move _ target value => target.NoReal ∧ value.NoReal
  | .clear _ target => target.NoReal
  | .display _ factor response => (∀ e ∈ factor, e.NoReal) ∧ ∀ e ∈ response, e.NoReal
  | .select _ cases other => Stmt.CasesNoReal cases ∧ Stmt.OtherNoReal other
  | .loop _ init limit step _ body =>
    init.NoReal ∧ limit.NoReal ∧ (∀ e ∈ step, e.NoReal) ∧ Stmt.AllNoReal body
  | .branch _ condition body otherwise =>
    condition.NoReal ∧ Stmt.AllNoReal body ∧ Stmt.OtherNoReal otherwise
  | .doWhile _ condition body => condition.NoReal ∧ Stmt.AllNoReal body
  | .ret _ value => ∀ e ∈ value, e.NoReal

def Stmt.AllNoReal : List Stmt → Prop
  | [] => True
  | t :: ts => t.NoReal ∧ Stmt.AllNoReal ts

def Stmt.CasesNoReal : List (Expr × List Stmt) → Prop
  | [] => True
  | (condition, body) :: cases =>
    condition.NoReal ∧ Stmt.AllNoReal body ∧ Stmt.CasesNoReal cases

def Stmt.OtherNoReal : Option (List Stmt) → Prop
  | none => True
  | some body => Stmt.AllNoReal body

end

theorem readsAt_optionalExpr {o : Option Expr} (ho : ∀ e ∈ o, e.NoReal) :
    ReadsAt room (readOption (Expr.read room)) (ofOption Expr.toDocument o) o := by
  refine readsAt_option ?_ fun e he => readsAt_expr (ho e he)
  intro e
  cases e with
  | _ span => cases span <;> nofun

theorem readsAt_parameterList (l : ParameterList) :
    ReadsAt room (ParameterList.read room) l.toDocument l := by
  refine readsAt_inside (depth_ofMembers_pos _) fun n => ?_
  have hparameter : ∀ n (r : Reference DataId), ReadsAt n (ParameterList.readParameter n)
      (ofMembers [("param", dataReference r)]) r := by
    intro n r
    refine readsAt_inside (depth_ofMembers_pos _) fun n => ?_
    exact (takes_field (readsAt_dataReference r)).read
  have hparameters : ReadsAt n (inside n fun n => readItems (ParameterList.readParameter n))
      (ofList (fun r => ofMembers [("param", dataReference r)]) l.parameters) l.parameters := by
    refine readsAt_inside (Nat.succ_pos _) fun n => ?_
    exact readsAt_items fun r _ => hparameter n r
  exact (takes_cons hparameters (takes_field (readsAt_bool l.isEntry)) (by simp)).readAs _

theorem readsAt_transfer {target value : Expr} (ht : target.NoReal) (hv : value.NoReal) :
    ReadsAt room (readTransfer room)
      (ofMembers [("target", target.toDocument), ("expression", value.toDocument)])
      (target, value) := by
  refine readsAt_inside (depth_ofMembers_pos _) fun n => ?_
  exact (takes_cons (readsAt_expr ht) (takes_field (readsAt_expr hv)) (by simp)).read

theorem readsAt_execute (r : Reference SubroutineId) :
    ReadsAt room (readExecute room) (ofMembers [("subroutine", r.toDocument SubroutineId.val)]) r := by
  refine readsAt_inside (depth_ofMembers_pos _) fun n => ?_
  exact (takes_field (readsAt_reference (fun _ => readsAt_subroutineId) r)).read

theorem readsAt_clear {target : Expr} (ht : target.NoReal) :
    ReadsAt room (readClear room) (ofMembers [("value", target.toDocument)]) target := by
  refine readsAt_inside (depth_ofMembers_pos _) fun n => ?_
  exact (takes_field (readsAt_expr ht)).read

theorem readsAt_display {factor response : Option Expr} (hf : ∀ e ∈ factor, e.NoReal)
    (hr : ∀ e ∈ response, e.NoReal) :
    ReadsAt room (readDisplay room) (ofMembers [("factor1", ofOption Expr.toDocument factor),
      ("response", ofOption Expr.toDocument response)]) (factor, response) := by
  refine readsAt_inside (depth_ofMembers_pos _) fun n => ?_
  exact (takes_cons (readsAt_optionalExpr hf) (takes_field (readsAt_optionalExpr hr))
    (by simp)).read

theorem readsAt_set (v : IndicatorValue) (indicators : List String) :
    ReadsAt room (readSet room) (ofMembers [("value_set", v.toDocument),
      ("indicators", ofList ofString indicators)]) (v, indicators) := by
  refine readsAt_inside (depth_ofMembers_pos _) fun n => ?_
  have hvalue : ReadsAt n (IndicatorValue.read n) v.toDocument v := by
    cases v <;> exact readsAt_plain rfl
  have hindicators : ReadsAt n (inside n fun _ => readItems readString)
      (ofList ofString indicators) indicators := by
    refine readsAt_inside (Nat.succ_pos _) fun n => ?_
    exact readsAt_items fun s _ => readsAt_string s
  exact (takes_cons hvalue (takes_field hindicators) (by simp)).read

theorem readsAt_return {value : Option Expr} (hv : ∀ e ∈ value, e.NoReal) :
    ReadsAt room (readReturn room) (ofMembers [("expression", ofOption Expr.toDocument value)])
      value := by
  refine readsAt_inside (depth_ofMembers_pos _) fun n => ?_
  exact (takes_field (readsAt_optionalExpr hv)).read

/-- The kinds of statements at one level of nesting. -/
def Stmt.kinds (n : Nat) : List (Variant (Unplaced Stmt)) :=
  Stmt.variants n (Stmt.readSelect n) (Stmt.readLoop n) (Stmt.readBranch n) (Stmt.readDoWhile n)

theorem readsAt_stmtNode (name : String) {content : Document} {k : Unplaced Stmt}
    {held : Nat → Reader (Unplaced Stmt)}
    (hfind : ∀ n, (Stmt.kinds n).find? (·.name == name) = some (.holding name (held n)))
    (hheld : ∀ n, ReadsAt n (held n) content k) (span : Option Span) :
    ReadsAt room (Stmt.read room) (placed span (tagged name content)) (k span) := by
  cases room with
  | zero => exact readsAt_unreadable (depth_placed_pos _ _)
  | succ room =>
    refine readsAt_placed ?_ span
    cases room with
    | zero => exact readsAt_tagged_zero
    | succ n => exact readsAt_tagged (hfind n) (hheld n)

theorem Stmt.documents_eq_map (ts : List Stmt) : Stmt.documents ts = ts.map Stmt.toDocument := by
  induction ts with
  | nil => rfl
  | cons t ts ih => rw [Stmt.documents, ih, List.map_cons]

theorem readsAt_block {ts : List Stmt}
    (h : ∀ t ∈ ts, ∀ n, ReadsAt n (Stmt.read n) t.toDocument t) :
    ReadsAt room (Stmt.readBlock room) (.array (Stmt.documents ts)) ts := by
  cases room with
  | zero => exact readsAt_unreadable (Nat.succ_pos _)
  | succ n =>
    rw [Stmt.documents_eq_map]
    exact readsAt_items fun t ht => h t ht n

/-- The document of one case. -/
def caseDocument (c : Expr × List Stmt) : Document :=
  ofMembers [("condition", c.1.toDocument), ("body", .array (Stmt.documents c.2))]

theorem Stmt.caseDocuments_eq_map (cases : List (Expr × List Stmt)) :
    Stmt.caseDocuments cases = cases.map caseDocument := by
  induction cases with
  | nil => rfl
  | cons c cases ih => rw [Stmt.caseDocuments, ih, List.map_cons, caseDocument]

theorem readsAt_cases {cases : List (Expr × List Stmt)} (hconditions : ∀ c ∈ cases, c.1.NoReal)
    (hbodies : ∀ c ∈ cases, ∀ t ∈ c.2, ∀ n, ReadsAt n (Stmt.read n) t.toDocument t) :
    ReadsAt room (Stmt.readCases room) (.array (Stmt.caseDocuments cases)) cases := by
  have hcase : ∀ n, ∀ c ∈ cases, ReadsAt n (Stmt.readCase n) (caseDocument c) c := by
    intro n c hc
    cases n with
    | zero => exact readsAt_unreadable (depth_ofMembers_pos _)
    | succ n =>
      exact (takes_cons (readsAt_expr (hconditions c hc)) (takes_field (readsAt_block (hbodies c hc)))
        (by simp)).read
  cases room with
  | zero => exact readsAt_unreadable (Nat.succ_pos _)
  | succ n =>
    rw [Stmt.caseDocuments_eq_map]
    exact readsAt_items (hcase n)

theorem readsAt_other {other : Option (List Stmt)}
    (h : ∀ body ∈ other, ∀ t ∈ body, ∀ n, ReadsAt n (Stmt.read n) t.toDocument t) :
    ReadsAt room (readOption (Stmt.readOther room)) (Stmt.otherDocument other) other := by
  have hdocument : Stmt.otherDocument other =
      ofOption (fun body => ofMembers [("body", .array (Stmt.documents body))]) other := by
    cases other <;> rfl
  rw [hdocument]
  refine readsAt_option nofun fun body hbody => ?_
  cases room with
  | zero => exact readsAt_unreadable (depth_ofMembers_pos _)
  | succ n => exact (takes_field (readsAt_block (h body hbody))).read

theorem readsAt_else {other : Option (List Stmt)}
    (h : ∀ body ∈ other, ∀ t ∈ body, ∀ n, ReadsAt n (Stmt.read n) t.toDocument t) :
    ReadsAt room (readOption (Stmt.readBlock room)) (Stmt.elseDocument other) other := by
  have hdocument : Stmt.elseDocument other =
      ofOption (fun body => .array (Stmt.documents body)) other := by
    cases other <;> rfl
  rw [hdocument]
  exact readsAt_option nofun fun body hbody => readsAt_block (h body hbody)

mutual

theorem readsAt_stmt (t : Stmt) (ht : t.NoReal) (room : Nat) :
    ReadsAt room (Stmt.read room) t.toDocument t := by
  cases t with
  | plist span l =>
    exact readsAt_stmtNode "plist" (fun _ => rfl) (fun _ => (readsAt_parameterList l).map _) span
  | eval span target value =>
    exact readsAt_stmtNode "eval" (fun _ => rfl) (fun _ => (readsAt_transfer ht.1 ht.2).map _) span
  | execute span r =>
    exact readsAt_stmtNode "execute_subroutine" (fun _ => rfl)
      (fun _ => (readsAt_execute r).map _) span
  | clear span target =>
    exact readsAt_stmtNode "clear" (fun _ => rfl) (fun _ => (readsAt_clear ht).map _) span
  | display span factor response =>
    exact readsAt_stmtNode "display" (fun _ => rfl) (fun _ => (readsAt_display ht.1 ht.2).map _) span
  | set span v indicators =>
    exact readsAt_stmtNode "set" (fun _ => rfl) (fun _ => (readsAt_set v indicators).map _) span
  | move span target value =>
    exact readsAt_stmtNode "move" (fun _ => rfl) (fun _ => (readsAt_transfer ht.1 ht.2).map _) span
  | ret span value =>
    exact readsAt_stmtNode "return" (fun _ => rfl) (fun _ => (readsAt_return ht).map _) span
  | leave span =>
    cases room with
    | zero => exact readsAt_unreadable (depth_placed_pos _ _)
    | succ room =>
      refine readsAt_placed ?_ span
      cases room <;> exact readsAt_plain rfl
  | iterate span =>
    cases room with
    | zero => exact readsAt_unreadable (depth_placed_pos _ _)
    | succ room =>
      refine readsAt_placed ?_ span
      cases room <;> exact readsAt_plain rfl
  | select span cases other =>
    have hheld : ∀ n, ReadsAt n (Stmt.readSelect n) (ofMembers
        [("cases", .array (Stmt.caseDocuments cases)), ("other", Stmt.otherDocument other)])
        (fun s => .select s cases other) := by
      intro n
      cases n with
      | zero => exact readsAt_unreadable (depth_ofMembers_pos _)
      | succ n =>
        obtain ⟨hconditions, hbodies⟩ := readsAt_caseBodies cases ht.1
        exact (takes_cons (readsAt_cases hconditions hbodies)
          (takes_field (readsAt_other (readsAt_otherBody other ht.2))) (by simp)).readAs _
    exact readsAt_stmtNode "select" (fun _ => rfl) hheld span
  | loop span init limit step down body =>
    have hheld : ∀ n, ReadsAt n (Stmt.readLoop n) (ofMembers
        [("init", init.toDocument), ("end_value", limit.toDocument),
          ("by_value", ofOption Expr.toDocument step), ("down_to", .bool down),
          ("body", .array (Stmt.documents body))])
        (fun s => .loop s init limit step down body) := by
      intro n
      cases n with
      | zero => exact readsAt_unreadable (depth_ofMembers_pos _)
      | succ n =>
        have hbody : ReadsAt n (Stmt.readBlock n) (.array (Stmt.documents body)) body :=
          readsAt_block (readsAt_stmts body ht.2.2.2)
        exact (takes_cons (readsAt_expr ht.1) (takes_cons (readsAt_expr ht.2.1)
          (takes_cons (readsAt_optionalExpr ht.2.2.1) (takes_cons (readsAt_bool down)
            (takes_field hbody) (by simp)) (by simp)) (by simp)) (by simp)).readAs _
    exact readsAt_stmtNode "for" (fun _ => rfl) hheld span
  | branch span condition body otherwise =>
    have hheld : ∀ n, ReadsAt n (Stmt.readBranch n) (ofMembers
        [("condition", condition.toDocument), ("body", .array (Stmt.documents body)),
          ("else_body", Stmt.elseDocument otherwise)])
        (fun s => .branch s condition body otherwise) := by
      intro n
      cases n with
      | zero => exact readsAt_unreadable (depth_ofMembers_pos _)
      | succ n =>
        exact (takes_cons (readsAt_expr ht.1) (takes_cons (readsAt_block (readsAt_stmts body ht.2.1))
          (takes_field (readsAt_else (readsAt_otherBody otherwise ht.2.2))) (by simp))
          (by simp)).readAs _
    exact readsAt_stmtNode "if" (fun _ => rfl) hheld span
  | doWhile span condition body =>
    have hheld : ∀ n, ReadsAt n (Stmt.readDoWhile n) (ofMembers
        [("end_expression", condition.toDocument), ("body", .array (Stmt.documents body))])
        (fun s => .doWhile s condition body) := by
      intro n
      cases n with
      | zero => exact readsAt_unreadable (depth_ofMembers_pos _)
      | succ n =>
        exact (takes_cons (readsAt_expr ht.1)
          (takes_field (readsAt_block (readsAt_stmts body ht.2))) (by simp)).readAs _
    exact readsAt_stmtNode "do_while" (fun _ => rfl) hheld span

theorem readsAt_stmts (ts : List Stmt) (hts : Stmt.AllNoReal ts) :
    ∀ t ∈ ts, ∀ room, ReadsAt room (Stmt.read room) t.toDocument t := by
  cases ts with
  | nil => exact nofun
  | cons t ts =>
    rw [List.forall_mem_cons]
    exact ⟨readsAt_stmt t hts.1, readsAt_stmts ts hts.2⟩

theorem readsAt_caseBodies (cases : List (Expr × List Stmt)) (h : Stmt.CasesNoReal cases) :
    (∀ c ∈ cases, c.1.NoReal) ∧
      ∀ c ∈ cases, ∀ t ∈ c.2, ∀ room, ReadsAt room (Stmt.read room) t.toDocument t := by
  match cases with
  | [] => exact ⟨nofun, nofun⟩
  | (condition, body) :: cases =>
    obtain ⟨hconditions, hbodies⟩ := readsAt_caseBodies cases h.2.2
    simp only [List.forall_mem_cons]
    exact ⟨⟨h.1, hconditions⟩, readsAt_stmts body h.2.1, hbodies⟩

theorem readsAt_otherBody (other : Option (List Stmt)) (h : Stmt.OtherNoReal other) :
    ∀ body ∈ other, ∀ t ∈ body, ∀ room, ReadsAt room (Stmt.read room) t.toDocument t := by
  cases other with
  | none => exact nofun
  | some body =>
    rintro _ ⟨⟩
    exact readsAt_stmts body h

end

/-! ### Units -/

/-- No literal of the unit is a real number. -/
structure CompilationUnit.NoReal (u : CompilationUnit) : Prop where
  data : ∀ d ∈ u.data, ∀ e ∈ d.initial, e.NoReal
  subroutines : ∀ x ∈ u.subroutines, Stmt.AllNoReal x.stmts
  main : Stmt.AllNoReal u.main

theorem readsAt_spanField (s : Option Span) :
    (spanField room).Takes room [("span", ofOption Span.toDocument s)] s :=
  takes_field (readsAt_option nofun fun s _ => readsAt_span s)

theorem readsAt_data {d : DataDefinition} (hd : ∀ e ∈ d.initial, e.NoReal) :
    ReadsAt room (DataDefinition.read room) d.toDocument d := by
  refine readsAt_inside (depth_ofMembers_pos _) fun n => ?_
  exact (takes_cons (readsAt_dataId d.id) (takes_cons (readsAt_string d.name)
    (takes_cons (readsAt_type d.ty) (takes_cons (readsAt_optionalExpr hd) (readsAt_spanField d.span)
      (by simp)) (by simp)) (by simp)) (by simp)).readAs _

theorem readsAt_inStatement (d : InStatementDefinition) :
    ReadsAt room (InStatementDefinition.read room) d.toDocument d := by
  refine readsAt_inside (depth_ofMembers_pos _) fun n => ?_
  exact (takes_cons (readsAt_dataId d.id) (takes_cons (readsAt_string d.name)
    (takes_cons (readsAt_type d.ty) (readsAt_spanField d.span) (by simp)) (by simp))
      (by simp)).readAs _

theorem readsAt_subroutine {x : Subroutine} (hx : Stmt.AllNoReal x.stmts) :
    ReadsAt room (Subroutine.read room) x.toDocument x := by
  refine readsAt_inside (depth_ofMembers_pos _) fun n => ?_
  have hstmts : ReadsAt n (Stmt.readBlock n) (.array (Stmt.documents x.stmts)) x.stmts :=
    readsAt_block (readsAt_stmts x.stmts hx)
  exact (takes_cons (readsAt_subroutineId x.id) (takes_cons (readsAt_string x.name)
    (takes_cons hstmts (readsAt_spanField x.span) (by simp)) (by simp)) (by simp)).readAs _

theorem readsAt_list {α : Type} {item : Nat → Reader α} {f : α → Document} {as : List α}
    (h : ∀ n, ∀ a ∈ as, ReadsAt n (item n) (f a) a) :
    ReadsAt room (inside room fun n => readItems (item n)) (ofList f as) as := by
  refine readsAt_inside (Nat.succ_pos _) fun n => ?_
  exact readsAt_items (h n)

/-- A unit is read as it was written, if there is room for its nesting. -/
theorem readsAt_unit {u : CompilationUnit} (hu : u.NoReal) :
    ReadsAt room (CompilationUnit.read room) u.toDocument u := by
  refine readsAt_inside (depth_ofMembers_pos _) fun n => ?_
  have hmain : ReadsAt n (readMain n) (ofMembers [("stmts", .array (Stmt.documents u.main))])
      u.main := by
    refine readsAt_inside (depth_ofMembers_pos _) fun n => ?_
    exact (takes_field (readsAt_block (readsAt_stmts u.main hu.main))).read
  have hentry : ReadsAt n (readOption (ParameterList.read n))
      (ofOption ParameterList.toDocument u.entry) u.entry :=
    readsAt_option nofun fun l _ => readsAt_parameterList l
  exact (takes_cons (readsAt_list fun _ d hd => readsAt_data (hu.data d hd))
    (takes_cons (readsAt_list fun _ d _ => readsAt_inStatement d)
      (takes_cons (readsAt_list fun _ x hx => readsAt_subroutine (hu.subroutines x hx))
        (takes_cons hmain (takes_field hentry) (by simp)) (by simp)) (by simp)) (by simp)).readAs _

end Source

end RpgLowering
