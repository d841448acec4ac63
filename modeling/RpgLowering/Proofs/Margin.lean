import RpgLowering.Text.Layout
import RpgLowering.Proofs.Bind

/-! Printing line after line with a margin. The margin is a 64-bit counter that grows in front of a
body and shrinks behind it; a line that starts too far to the right stops the printer, and so would a
margin of 2^64 or more. What is printed is compared with a list of lines. -/
namespace RpgLowering.Text

/-- What stops a printer. -/
inductive Overrun where
  /-- A line would start beyond the widest indentation. -/
  | width
  /-- The margin would be 2^64 or more. -/
  | addition
  deriving DecidableEq

/-- What has been printed, and where the next line starts. -/
structure Page where
  margin : UInt64 := 0
  text : String := ""

abbrev Printer : Type := Page → Except Overrun Page

/-- One line behind the margin. -/
def line (text : String) : Printer := fun page =>
  if page.margin.toNat ≤ widest then
    .ok { page with text := page.text ++ (spaces page.margin.toNat ++ text ++ "\n") }
  else .error .width

/-- An empty line, which has no margin. -/
def blankLine : Printer := fun page => .ok { page with text := page.text ++ "\n" }

/-- The difference, or zero where there is none. -/
def monus (a b : UInt64) : UInt64 := if b ≤ a then a - b else 0

/-- A body one level deeper. -/
def deeper (size : UInt64) (body : Printer) : Printer := fun page =>
  if page.margin.toNat + size.toNat < UInt64.size then do
    let page ← body { page with margin := page.margin + size }
    .ok { page with margin := monus page.margin size }
  else .error .addition

section
variable {α : Type}

/-- One thing after another. -/
def each (w : α → Printer) : List α → Printer
  | [] => .ok
  | a :: as => w a >=> each w as

/-- One thing after another, with an empty line in front of each but the first. -/
def eachSpaced (w : α → Printer) (first : Bool) : List α → Printer
  | [] => .ok
  | a :: as => (if first then .ok else blankLine) >=> w a >=> eachSpaced w false as

end

/-! ### Lines on a page -/

/-- The lines at the end of a page, if all of them fit. -/
def put (n : Nat) (lines : List Line) : Printer := fun page =>
  if lines.all (fun l => l.level * n ≤ widest) then
    .ok { page with text := page.text ++ String.join (lines.map (Line.indented n)) }
  else .error .width

theorem put_eq_ok {n : Nat} {lines : List Line} {page page' : Page}
    (h : put n lines page = .ok page') :
    page'.margin = page.margin ∧ ∀ l ∈ lines, l.level * n ≤ widest := by
  unfold put at h
  split at h
  · rename_i hfit
    rw [← Except.ok.inj h]
    exact ⟨rfl, by simpa using hfit⟩
  · cases h

/-- What follows has to be right on the pages that the lines leave. -/
theorem put_then {n : Nat} {lines : List Line} {page : Page} {w w' : Printer}
    (h : ∀ page', put n lines page = .ok page' → w page' = w' page') :
    (put n lines page >>= w) = (put n lines page >>= w') := by
  cases hput : put n lines page with
  | error e => rfl
  | ok page' => exact h page' hput

theorem put_nil (n : Nat) (page : Page) : put n [] page = .ok page := by
  simp [put]

theorem put_append (n : Nat) (ls ls' : List Line) (page : Page) :
    put n (ls ++ ls') page = put n ls page >>= put n ls' := by
  unfold put
  rw [List.all_append]
  cases ls.all (fun l => l.level * n ≤ widest) with
  | false => rfl
  | true =>
    cases ls'.all (fun l => l.level * n ≤ widest) with
    | false => rfl
    | true => simp [bind, Except.bind, String.append_assoc]

/-- The text does not depend on the margin. -/
theorem put_margin (n : Nat) (ls : List Line) (page : Page) (margin : UInt64) :
    put n ls { page with margin } = (put n ls page).map fun page => { page with margin } := by
  unfold put
  split <;> rfl

/-! ### Printers of lines -/

/-- The printer gives back the margin it finds, and puts the lines on a page whose margin is that of
the level. -/
structure Prints (size : UInt64) (level : Nat) (w : Printer) (lines : List Line) : Prop where
  keeps : ∀ page page', w page = .ok page' → page'.margin = page.margin
  prints : ∀ page : Page, page.margin.toNat = level * size.toNat → w page = put size.toNat lines page

theorem margin_deeper {page : Page} {size : UInt64}
    (h : page.margin.toNat + size.toNat < UInt64.size) :
    (page.margin + size).toNat = page.margin.toNat + size.toNat ∧
      monus (page.margin + size) size = page.margin := by
  have hsum : (page.margin + size).toNat = page.margin.toNat + size.toNat := by
    rw [UInt64.toNat_add, Nat.mod_eq_of_lt h]
  refine ⟨hsum, ?_⟩
  have hle : size ≤ page.margin + size := by
    rw [UInt64.le_iff_toNat_le, hsum]
    exact Nat.le_add_left _ _
  rw [monus, if_pos hle, UInt64.add_sub_cancel]

theorem keeps_deeper {size : UInt64} {body : Printer}
    (h : ∀ page page', body page = .ok page' → page'.margin = page.margin) :
    ∀ page page', deeper size body page = .ok page' → page'.margin = page.margin := by
  intro page page' hok
  unfold deeper at hok
  split at hok
  · rename_i hfits
    obtain ⟨inner, hinner, hdone⟩ := bind_eq_ok.mp hok
    obtain rfl := Except.ok.inj hdone
    have hkept : inner.margin = page.margin + size := h _ _ hinner
    simp only [hkept, (margin_deeper hfits).2]
  · cases hok

section
variable {size : UInt64} {level : Nat} {w w' body tail : Printer} {ls ls' : List Line}

theorem prints_ok : Prints size level .ok [] where
  keeps page page' h := by rw [Except.ok.inj h]
  prints page _ := (put_nil _ page).symm

theorem prints_line (text : String) : Prints size level (line text) [⟨level, text⟩] where
  keeps page page' h := by
    unfold line at h
    split at h
    · rw [← Except.ok.inj h]
    · cases h
  prints page h := by simp [line, put, h, Line.indented]

theorem prints_blankLine : Prints size level blankLine [Line.blank] where
  keeps page page' h := by rw [← Except.ok.inj h]
  prints page _ := by simp [blankLine, put, Line.blank, Line.indented, spaces]

theorem Prints.append (h : Prints size level w ls) (h' : Prints size level w' ls') :
    Prints size level (w >=> w') (ls ++ ls') where
  keeps page page' hok := by
    obtain ⟨middle, hfirst, hsecond⟩ := bind_eq_ok.mp hok
    rw [h'.keeps _ _ hsecond, h.keeps _ _ hfirst]
  prints page hmargin := by
    rw [put_append, Bind.kleisliRight, h.prints page hmargin]
    refine put_then fun middle hmiddle => h'.prints middle ?_
    rw [(put_eq_ok hmiddle).1, hmargin]

/-- Behind a line that fits, a body one level deeper is printed and the margin restored. The margin
is far from 2^64 there: it is either zero, or a positive multiple of the size and not too wide. -/
theorem deeper_eq_put (h : Prints size (level + 1) body ls) {page : Page}
    (hmargin : page.margin.toNat = level * size.toNat) (hfits : page.margin.toNat ≤ widest) :
    deeper size body page = put size.toNat ls page := by
  have hlt : page.margin.toNat + size.toNat < UInt64.size := by
    have hsize := size.toNat_lt
    cases level with
    | zero => rw [hmargin, Nat.zero_mul, Nat.zero_add]; exact hsize
    | succ k =>
      have hle : size.toNat ≤ page.margin.toNat := by
        rw [hmargin]
        exact Nat.le_mul_of_pos_left _ k.succ_pos
      unfold widest at hfits
      unfold UInt64.size
      omega
  obtain ⟨hsum, hback⟩ := margin_deeper hlt
  have hbody := h.prints { page with margin := page.margin + size } (by
    rw [hsum, hmargin, Nat.succ_mul])
  rw [deeper, if_pos hlt, hbody, put_margin]
  cases hput : put size.toNat ls page with
  | error e => rfl
  | ok inner =>
    simp only [Except.map, bind, Except.bind, hback]
    rw [← (put_eq_ok hput).1]

/-- A line, a body one level deeper, and what follows on the level of the line. -/
theorem Prints.braced (h : Prints size (level + 1) body ls) (htail : Prints size level tail ls')
    (head : String) : Prints size level (line head >=> deeper size body >=> tail)
      (⟨level, head⟩ :: (ls ++ ls')) where
  keeps page page' hok := by
    have hline : Prints size level (line head) [⟨level, head⟩] := prints_line head
    obtain ⟨first, hfirst, hrest⟩ := bind_eq_ok.mp hok
    obtain ⟨second, hsecond, hlast⟩ := bind_eq_ok.mp hrest
    rw [htail.keeps _ _ hlast, keeps_deeper h.keeps _ _ hsecond, hline.keeps _ _ hfirst]
  prints page hmargin := by
    rw [← List.singleton_append, put_append, Bind.kleisliRight,
      (prints_line head).prints page hmargin]
    refine put_then fun first hfirst => ?_
    obtain ⟨hkept, hfits⟩ := put_eq_ok hfirst
    have hmargin' : first.margin.toNat = level * size.toNat := by rw [hkept, hmargin]
    have hwide : first.margin.toNat ≤ widest := by
      rw [hmargin']
      exact hfits _ List.mem_cons_self
    rw [put_append, Bind.kleisliRight, deeper_eq_put h hmargin' hwide]
    refine put_then fun second hsecond => htail.prints second ?_
    rw [(put_eq_ok hsecond).1, hmargin']

variable {α : Type} {f : α → Printer} {lines : α → List Line}

theorem prints_each (h : ∀ a, Prints size level (f a) (lines a)) (as : List α) :
    Prints size level (each f as) (as.flatMap lines) := by
  induction as with
  | nil => exact prints_ok
  | cons a as ih => exact (h a).append ih

theorem prints_eachSpaced (h : ∀ a, Prints size level (f a) (lines a)) (as : List α) :
    Prints size level (eachSpaced f false as) (as.flatMap fun a => Line.blank :: lines a) := by
  induction as with
  | nil => exact prints_ok
  | cons a as ih =>
    rw [List.flatMap_cons]
    exact prints_blankLine.append ((h a).append ih)

/-! ### Whole texts -/

/-- The text of a page, if there is one. -/
def printed : Except Overrun Page → Except Failure String
  | .ok page => .ok page.text
  | .error _ => .error (.aborted .indentation)

theorem Prints.whole (h : Prints size 0 w ls) :
    w {} = (if ∀ l ∈ ls, l.level * size.toNat ≤ widest then
        .ok { text := String.join (ls.map (Line.indented size.toNat)) }
      else .error .width) ∧
    render size.toNat ls = printed (w {}) := by
  rw [h.prints {} (by simp)]
  constructor
  · simp [put]
  · unfold render put
    split
    · simp [printed]
    · rfl

end

end RpgLowering.Text
