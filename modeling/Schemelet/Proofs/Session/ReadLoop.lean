import Schemelet.Proofs.Reader.Lexing
import Schemelet.Proofs.Text.Lines
import Schemelet.Session

/-! The read loop as a sequence of answers. Each line is answered once and in order, in the store
that the line before it left, and a failing line is answered like any other. -/

namespace Schemelet

theorem Token.scan_eq_nil_iff {pending cs : List Char} :
    scan pending cs = [] ↔ pending = [] ∧ cs.all Text.isBlank = true := by
  have atomEnds (pending : List Char) (tokens : List Token) :
      endAtom pending tokens = [] ↔ pending = [] ∧ tokens = [] := by
    unfold endAtom
    cases pending <;> simp
  fun_induction scan pending cs with
  | case1 pending => simp [atomEnds]
  | case2 pending c cs blank ih => simp [atomEnds, ih, blank]
  | case3 pending cs visible ih => simp [atomEnds, visible]
  | case4 pending cs visible other ih => simp [atomEnds, visible]
  | case5 pending c cs visible noOpening noClosing quote ih => simp [visible]
  | case6 pending c cs visible noOpening noClosing noQuote ih => simp [ih, visible]

/-- The loop's notion of a blank line is that of a line without tokens. -/
theorem Token.ofSource_eq_nil_iff {line : List Char} :
    ofSource (String.ofList line) = [] ↔ line.all Text.isBlank = true := by
  rw [ofSource, String.toList_ofList, scan_eq_nil_iff]
  exact and_iff_right rfl

namespace ReadLoop

/-- The answer to a line in a store, with the store behind it. A line without tokens is not
evaluated. -/
inductive Answers (limits : Limits) (line : List Char) (s : Store) : String → Store → Prop where
  | blank (tokens : Token.ofSource (String.ofList line) = []) : Answers limits line s "" s
  | unspecified {s' : Store} (tokens : Token.ofSource (String.ofList line) ≠ [])
      (evaluated : Session.eval limits (String.ofList line) s = .ok .unspecified s') :
      Answers limits line s "" s'
  | value {v : Value} {s' : Store} (tokens : Token.ofSource (String.ofList line) ≠ [])
      (evaluated : Session.eval limits (String.ofList line) s = .ok v s')
      (specified : v ≠ .unspecified) : Answers limits line s (v.printed ++ "\n") s'
  | error {e : Failure} {s' : Store} (tokens : Token.ofSource (String.ofList line) ≠ [])
      (failed : Session.eval limits (String.ofList line) s = .error e s') :
      Answers limits line s ("error: " ++ e.message ++ "\n") s'

inductive AnswersAll (limits : Limits) :
    List (List Char) → Store → List String → Store → Prop where
  | nil {s : Store} : AnswersAll limits [] s [] s
  | cons {line : List Char} {lines : List (List Char)} {s s₁ s' : Store} {text : String}
      {texts : List String} (first : Answers limits line s text s₁)
      (rest : AnswersAll limits lines s₁ texts s') :
      AnswersAll limits (line :: lines) s (text :: texts) s'

variable {limits : Limits} {line : List Char} {s s' : Store}

theorem answers_answer (limits : Limits) (line : List Char) (s : Store) :
    Answers limits line s (answer limits line s).1 (answer limits line s).2 := by
  unfold answer
  split
  · rename_i blank
    exact .blank (Token.ofSource_eq_nil_iff.mpr blank)
  · rename_i visible
    have tokens : Token.ofSource (String.ofList line) ≠ [] :=
      fun none => visible (Token.ofSource_eq_nil_iff.mp none)
    split
    · rename_i evaluated
      exact .unspecified tokens evaluated
    · rename_i specified evaluated
      exact .value tokens evaluated specified
    · rename_i failed
      exact .error tokens failed

theorem answer_eq {text : String} (answered : Answers limits line s text s') :
    answer limits line s = (text, s') := by
  have visible (tokens : Token.ofSource (String.ofList line) ≠ []) :
      ¬ line.all Text.isBlank = true :=
    fun blank => tokens (Token.ofSource_eq_nil_iff.mpr blank)
  unfold answer
  cases answered with
  | blank tokens => rw [if_pos (Token.ofSource_eq_nil_iff.mp tokens)]
  | unspecified tokens evaluated => rw [if_neg (visible tokens), evaluated]
  | value tokens evaluated specified =>
    rw [if_neg (visible tokens), evaluated]
    split
    · rename_i same
      cases same
      exact absurd rfl specified
    · rename_i same
      cases same
      rfl
    · rename_i impossible
      cases impossible
  | error tokens failed => rw [if_neg (visible tokens), failed]

def transcript (prompt : String) (answers : List String) : String :=
  String.join (answers.map (prompt ++ ·)) ++ (prompt ++ "\n")

theorem transcript_append (prompt : String) (earlier later : List String) :
    transcript prompt (earlier ++ later) =
      String.join (earlier.map (prompt ++ ·)) ++ transcript prompt later := by
  simp [transcript, String.append_assoc]

theorem runLines_of_answers (prompt : String) {lines : List (List Char)} {answers : List String}
    (answered : AnswersAll limits lines s answers s') :
    runLines limits prompt lines s = (transcript prompt answers, s') := by
  induction answered with
  | nil => simp [runLines, transcript]
  | cons first rest ih =>
    rw [runLines, answer_eq first]
    simp [ih, transcript, String.append_assoc]

theorem exists_answers (limits : Limits) (lines : List (List Char)) (s : Store) :
    ∃ answers s', AnswersAll limits lines s answers s' := by
  induction lines generalizing s with
  | nil => exact ⟨[], s, .nil⟩
  | cons line lines ih =>
    obtain ⟨answers, s', rest⟩ := ih (answer limits line s).2
    exact ⟨_, s', .cons (answers_answer limits line s) rest⟩

theorem AnswersAll.append {earlier later : List (List Char)} {s₁ : Store}
    {first second : List String} (before : AnswersAll limits earlier s first s₁)
    (behind : AnswersAll limits later s₁ second s') :
    AnswersAll limits (earlier ++ later) s (first ++ second) s' := by
  induction before with
  | nil => exact behind
  | cons answered rest ih => exact .cons answered (ih behind)

theorem run_eq_iff {prompt input output : String} :
    run limits prompt input s = (output, s') ↔
      ∃ lines answers, Text.Lines input.toList lines ∧ AnswersAll limits lines s answers s' ∧
        output = transcript prompt answers := by
  constructor
  · intro ran
    obtain ⟨answers, left, answered⟩ := exists_answers limits (Text.lines input.toList) s
    rw [run, runLines_of_answers prompt answered] at ran
    cases ran
    exact ⟨_, answers, Text.lines_spec _, answered, rfl⟩
  · rintro ⟨lines, answers, cut, answered, rfl⟩
    rw [run, Text.lines_eq_iff.mpr cut]
    exact runLines_of_answers prompt answered

/-- The loop answers the lines of its input, each of them once and in order, whatever errors there
are, and then the input ends. So it can be stopped behind any line feed and started again in the
store that is left there: only the prompt at the end is written once more. An answer that the steps
ran out says nothing of a program. It stands for a line whose evaluation never ends, behind which
nothing would be answered. -/
theorem every_line_answered_in_order (limits : Limits) (prompt : String) :
    (∀ (input output : String) (s s' : Store), run limits prompt input s = (output, s') ↔
      ∃ lines answers, Text.Lines input.toList lines ∧ AnswersAll limits lines s answers s' ∧
        output = transcript prompt answers) ∧
      ∀ (first second : String) (s : Store), ∃ (shown : String) (s₁ : Store),
        run limits prompt (first ++ "\n") s = (shown ++ (prompt ++ "\n"), s₁) ∧
          run limits prompt (first ++ "\n" ++ second) s =
            (shown ++ (run limits prompt second s₁).1, (run limits prompt second s₁).2) := by
  refine ⟨fun _ _ _ _ => run_eq_iff, ?_⟩
  intro first second s
  have cut : Text.lines (first ++ "\n" ++ second).toList =
      Text.lines (first ++ "\n").toList ++ Text.lines second.toList := by
    simpa using Text.lines_append first.toList second.toList
  obtain ⟨shown, s₁, before⟩ := exists_answers limits (Text.lines (first ++ "\n").toList) s
  obtain ⟨more, s', behind⟩ := exists_answers limits (Text.lines second.toList) s₁
  refine ⟨String.join (shown.map (prompt ++ ·)), s₁, runLines_of_answers prompt before, ?_⟩
  have rest : run limits prompt second s₁ = (transcript prompt more, s') :=
    runLines_of_answers prompt behind
  have whole := runLines_of_answers prompt (before.append behind)
  rw [run, cut, whole, rest, transcript_append]

end ReadLoop

end Schemelet
