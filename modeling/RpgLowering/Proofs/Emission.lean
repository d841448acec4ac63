import RpgLowering.Command.Output
import RpgLowering.Proofs.WellFormed

/-! What can go wrong after a unit has been lowered: nothing in making the class, and in writing
either form only that a line starts too far to the right. -/
namespace RpgLowering
open RpgLowering.Core (Program)
open RpgLowering.Source (CompilationUnit)
open RpgLowering.Target (SourceFile)

theorem Text.render_eq_error {indent : Nat} {lines : List Text.Line} {f : Failure} :
    Text.render indent lines = .error f ↔
      f = .aborted .indentation ∧ ∃ l ∈ lines, Text.widest < l.level * indent := by
  have hfits : lines.all (fun l => l.level * indent ≤ Text.widest) ↔
      ¬ ∃ l ∈ lines, Text.widest < l.level * indent := by
    simp
  unfold Text.render
  by_cases h : ∃ l ∈ lines, Text.widest < l.level * indent
  · rw [if_neg (fun hall => hfits.mp hall h)]
    simp only [h, and_true, Except.error.injEq, eq_comm]
  · rw [if_pos (hfits.mpr h)]
    simp only [h, and_false, reduceCtorEq]

theorem exists_class_ofSource {name : String} {u : CompilationUnit} {p : Program}
    (h : Program.ofSource name u = .ok p) : ∃ file, SourceFile.ofCore p = .ok file := by
  have hp := Core.wellFormed_ofSource h
  refine Target.exists_sourceFileOfCore.mpr ⟨?_, hp.main, hp.functions⟩
  intro g hg e he
  obtain ⟨i, hi⟩ := List.mem_iff_getElem?.mp hg
  have hlt : i < p.globals.length := (List.getElem?_eq_some_iff.mp hi).1
  exact (hp.initials i g hi e he).mono hlt

/-- A line of the output would start beyond the widest indentation. -/
def Emit.TooWide (e : Emit) (layout : Layout) (p : Program) : Prop :=
  match e with
  | .java => ∃ file, SourceFile.ofCore p = .ok file ∧
      ∃ l ∈ file.lines, Text.widest < l.level * layout.indent
  | .ir => ∃ l ∈ p.lines layout.showTypes, Text.widest < l.level * layout.indent

theorem Emit.text_eq_error {e : Emit} {layout : Layout} {name : String} {u : CompilationUnit}
    {f : Failure} :
    e.text layout name u = .error f ↔ Program.ofSource name u = .error f ∨
      f = .aborted .indentation ∧ ∃ p, Program.ofSource name u = .ok p ∧ e.TooWide layout p := by
  simp only [Emit.text, bind_eq_error]
  refine or_congr_right ?_
  rw [← exists_and_left]
  refine exists_congr fun p => ?_
  rw [and_left_comm]
  refine and_congr_right fun hp => ?_
  cases e with
  | ir => exact Text.render_eq_error
  | java =>
    obtain ⟨file, hfile⟩ := exists_class_ofSource hp
    have hjava : p.java layout.indent = Text.render layout.indent file.lines := by
      rw [Program.java, hfile]
      rfl
    have hwide : Emit.TooWide .java layout p ↔
        ∃ l ∈ file.lines, Text.widest < l.level * layout.indent := by
      simp [Emit.TooWide, hfile]
    rw [hwide]
    exact hjava ▸ Text.render_eq_error

namespace Command

theorem lifted_eq_error {α : Type} {x : Except Failure α} {err : CommandError} :
    lifted x = .error err ↔ ∃ f, x = .error f ∧ .failed f = err := by
  cases x with
  | ok a => simp [lifted]
  | error f => simp [lifted]

/-- Of a unit that was read, either form is refused for what its lowering reports. -/
theorem lifted_text_eq_error {e : Emit} {layout : Layout} {name : String} {u : CompilationUnit}
    {err : CommandError} (h : err ≠ .failed (.aborted .indentation)) :
    lifted (e.text layout name u) = .error err ↔
      lifted (Program.ofSource name u) = .error err := by
  simp only [lifted_eq_error, Emit.text_eq_error]
  refine exists_congr fun f => and_congr_left ?_
  rintro rfl
  refine or_iff_left ?_
  rintro ⟨rfl, _⟩
  exact h rfl

theorem output_eq_error {files : Files} {a : Arguments} {s : Settings} {err : CommandError}
    (h : err ≠ .failed (.aborted .indentation)) :
    output files a s = .error err ↔ (do
      let content ← inputContent files a.input
      let name ← chosenName s a.name a.input
      let u ← lifted (CompilationUnit.loadBytes content)
      lifted (Program.ofSource name u)) = .error err := by
  simp only [output, bind_eq_error, lifted_text_eq_error h]

end Command

/-- Nothing is refused after a unit has been lowered. The program is well formed and has a class;
making the class, writing the class and writing the program each fail as lowering does, and
writing stops besides only where a line would be too far to the right. The last part compares the
errors that the two forms return. Such a stop returns none but aborts the command, and is left out
there: the lines of a class and of a listing do not start equally far to the right. -/
theorem fails_iff_lowering_fails (name : String) (u : CompilationUnit) :
    (∀ p, Program.ofSource name u = .ok p →
      p.WellFormed ∧ ∃ file, SourceFile.ofCore p = .ok file) ∧
    (∀ f, (Program.ofSource name u >>= SourceFile.ofCore) = .error f ↔
      Program.ofSource name u = .error f) ∧
    (∀ (e : Emit) layout f, e.text layout name u = .error f ↔ Program.ofSource name u = .error f ∨
      f = .aborted .indentation ∧ ∃ p, Program.ofSource name u = .ok p ∧ e.TooWide layout p) ∧
    ∀ files (a : Command.Arguments) s err, err ≠ .failed (.aborted .indentation) →
      (Command.output files { a with emit := .java } s = .error err ↔
        Command.output files { a with emit := .ir } s = .error err) := by
  refine ⟨fun p hp => ⟨Core.wellFormed_ofSource hp, exists_class_ofSource hp⟩, fun f => ?_,
    fun e layout f => Emit.text_eq_error, fun files a s err herr => ?_⟩
  · rw [bind_eq_error]
    refine or_iff_left ?_
    rintro ⟨p, hp, hf⟩
    obtain ⟨file, hfile⟩ := exists_class_ofSource hp
    rw [hfile] at hf
    cases hf
  · rw [Command.output_eq_error herr, Command.output_eq_error herr]

theorem tally_has_class_and_leave_fails : ∃ p, Program.ofSource "Tally" Core.tally = .ok p ∧ p.WellFormed ∧
    (∃ file, SourceFile.ofCore p = .ok file) ∧
    ∃ f, Program.ofSource "Tally" { main := [.leave none] } = .error f ∧
      Emit.text .java {} "Tally" { main := [.leave none] } = .error f ∧
      Emit.text .ir {} "Tally" { main := [.leave none] } = .error f := by
  obtain ⟨hok, -⟩ := fails_iff_lowering_fails "Tally" Core.tally
  obtain ⟨hwell, hfile⟩ := hok _ rfl
  obtain ⟨-, -, htext, -⟩ := fails_iff_lowering_fails "Tally" { main := [.leave none] }
  exact ⟨_, rfl, hwell, hfile, _, rfl, (htext .java {} _).mpr (.inl rfl),
    (htext .ir {} _).mpr (.inl rfl)⟩

end RpgLowering
