import Schemelet.CommandLine.Run
import Schemelet.Proofs.Session.Expressions

/-! Runs of the command line, told by the calls of their session. Prelude files, files and the
expression are called for in this order, and the first call that fails decides the report; what
stands behind it has no part in it. Without a failure the report is that of the expression and of
the read loop. -/

namespace Schemelet

namespace Session

theorem halt_of_evaluateAll_error {limits : Limits} {last : Value} {exprs : List Value}
    {e : Failure} {s s' : Store} (fails : evaluateAll limits last exprs s = .error e s') :
    ∃ h, e = .halt h := by
  induction exprs generalizing last s with
  | nil => cases fails
  | cons expr exprs ih =>
    cases run : evaluate limits expr s with
    | ok v s₁ =>
      rw [evaluateAll, bind_of_ok run] at fails
      exact ih fails
    | error e₁ s₁ =>
      rw [evaluateAll, bind_of_error run] at fails
      cases fails
      unfold evaluate EStateM.adaptExcept at run
      split at run
      · cases run
        exact ⟨_, rfl⟩
      · cases run

namespace Call

theorem error_of_verdict {limits : Limits} {call : Call} {v : Value} {e : Failure}
    (fails : call.verdict limits v = .error e) :
    (∃ fault, e = .read fault) ∨ (∃ source fault, call = .read source ∧ e = .ofReading fault) ∨
      ∃ files path, call = .load files path ∧ readText files path = .error e := by
  have source (text : String) (fails : sourceVerdict limits text v = .error e) :
      ∃ fault, e = .read fault := by
    unfold sourceVerdict at fails
    split at fails
    · cases fails
    · cases fails
      exact ⟨_, rfl⟩
  cases call with
  | read text =>
    simp only [verdict] at fails
    split at fails
    · cases fails
    · cases fails
      exact Or.inr (Or.inl ⟨text, _, rfl, rfl⟩)
  | evaluate expr => cases fails
  | eval text =>
    simp only [verdict] at fails
    split at fails
    · cases fails
    · cases fails
      exact Or.inl ⟨_, rfl⟩
  | evalSource text => exact Or.inl (source text fails)
  | load files path =>
    simp only [verdict] at fails
    split at fails
    · exact Or.inl (source _ fails)
    · rename_i unread
      cases fails
      exact Or.inr (Or.inr ⟨files, path, rfl, unread⟩)

-- A failure that is no halt does not come from the expressions of a call.
theorem verdict_of_error {limits : Limits} {call : Call} {e : Failure} {s s' : Store}
    (other : ∀ h, e ≠ .halt h) (fails : call.run limits s = .error e s') :
    ∃ v, call.verdict limits v = .error e := by
  rw [run_eq] at fails
  cases evaluated : evaluateAll limits .unspecified (call.expressions limits) s with
  | error e s₁ =>
    rw [bind_of_error evaluated] at fails
    cases fails
    obtain ⟨h, halts⟩ := halt_of_evaluateAll_error evaluated
    exact absurd halts (other h)
  | ok v s₁ =>
    rw [bind_of_ok evaluated] at fails
    cases ends : call.verdict limits v with
    | ok w =>
      rw [ends] at fails
      cases fails
    | error e =>
      rw [ends] at fails
      cases fails
      exact ⟨v, ends⟩

theorem load_of_file_error {limits : Limits} {call : Call} {path : Path} {fault : FileFault}
    {s s' : Store} (fails : call.run limits s = .error (.file path fault) s') :
    ∃ files, call = .load files path ∧ files path = .error fault := by
  obtain ⟨v, ends⟩ := verdict_of_error (by simp) fails
  rcases error_of_verdict ends with ⟨e, other⟩ | ⟨source, e, -, other⟩ | ⟨files, path', rfl, unread⟩
  · cases other
  · cases e <;> cases other
  · rcases error_of_readText unread with ⟨fault', same, unopened⟩ | ⟨fault', other⟩
    · cases same
      exact ⟨files, rfl, unopened⟩
    · cases other

end Call

end Session

namespace CommandLine

namespace Item

def call (files : Files) : Item → Session.Call
  | .preludeFile path => .load files path
  | .sourceFile name => .load files (.ofText name)
  | .expression source => .eval source

def path? : Item → Option Path
  | .preludeFile path => some path
  | .sourceFile name => some (.ofText name)
  | .expression _ => none

theorem evaluate_eq_run (limits : Limits) (files : Files) (item : Item) :
    item.evaluate limits files = (item.call files).run limits := by
  cases item <;> rfl

theorem run_congr {files files' : Files} {item : Item}
    (same : ∀ path, item.path? = some path → files' path = files path) (limits : Limits) :
    (item.call files').run limits = (item.call files).run limits := by
  have load (path : Path) (equal : files' path = files path) :
      Session.load limits files' path = Session.load limits files path := by
    unfold Session.load Session.readText
    rw [equal]
  cases item with
  | preludeFile path => exact load path (same path rfl)
  | sourceFile name => exact load (.ofText name) (same _ rfl)
  | expression source => rfl

theorem printed_of_file {item : Item} {path : Path} (file : item.path? = some path) (v : Value) :
    item.printed v = "" := by
  cases item with
  | expression source => cases file
  | _ => rfl

theorem null_of_error {limits : Limits} {files : Files} {item : Item} {path : Path} {s s' : Store}
    (fails : (item.call files).run limits s = .error (.file path .nullCharacter) s') :
    item.path? = some path ∧ files path = .error .nullCharacter := by
  obtain ⟨files', loads, fault⟩ := Session.Call.load_of_file_error fails
  cases item with
  | expression source => cases loads
  | _ =>
    cases loads
    exact ⟨rfl, fault⟩

theorem ne_stackExhausted_of_error {limits : Limits} {files : Files} {item : Item} {e : Failure}
    {s s' : Store} (fails : (item.call files).run limits s = .error e s') :
    e ≠ .stackExhausted := by
  rintro rfl
  obtain ⟨v, ends⟩ := Session.Call.verdict_of_error (by simp) fails
  rcases Session.Call.error_of_verdict ends with ⟨e, other⟩ | ⟨source, e, reads, -⟩ |
    ⟨files', path, -, unread⟩
  · cases other
  · cases item <;> cases reads
  · rcases Session.error_of_readText unread with ⟨fault, other, -⟩ | ⟨fault, other⟩
    · cases other
    · cases other

theorem run_of_null {limits : Limits} {files : Files} {item : Item} {path : Path}
    (opens : item.path? = some path) (fault : files path = .error .nullCharacter) (s : Store) :
    (item.call files).run limits s = .error (.file path .nullCharacter) s := by
  have load : Session.load limits files path s = .error (.file path .nullCharacter) s := by
    unfold Session.load Session.readText
    rw [fault]
    rfl
  cases item with
  | expression source => cases opens
  | _ =>
    cases opens
    exact load

end Item

inductive Succeed (limits : Limits) (files : Files) :
    List Item → Store → List Value → Store → Prop where
  | nil {s : Store} : Succeed limits files [] s [] s
  | cons {item : Item} {items : List Item} {s s₁ s' : Store} {v : Value} {vs : List Value}
      (first : (item.call files).run limits s = .ok v s₁)
      (rest : Succeed limits files items s₁ vs s') :
      Succeed limits files (item :: items) s (v :: vs) s'

/-- An item that fails in the store which the items before it leave with success. -/
inductive FailsAfter (limits : Limits) (files : Files) (earlier : List Item) (item : Item)
    (s : Store) (e : Failure) : Prop where
  | intro {vs : List Value} {s₁ s' : Store} (before : Succeed limits files earlier s vs s₁)
      (fails : (item.call files).run limits s₁ = .error e s')

variable {limits : Limits} {files files' : Files} {s s' s₁ : Store} {vs : List Value} {e : Failure}
  {earlier later : List Item} {item : Item}

theorem succeed_or_fails (limits : Limits) (files : Files) (items : List Item) (s : Store) :
    (∃ vs s', Succeed limits files items s vs s') ∨
      ∃ earlier item later e, items = earlier ++ item :: later ∧
        FailsAfter limits files earlier item s e := by
  induction items generalizing s with
  | nil => exact Or.inl ⟨[], s, .nil⟩
  | cons item items ih =>
    cases run : (item.call files).run limits s with
    | error e s₁ => exact Or.inr ⟨[], item, items, e, rfl, .intro .nil run⟩
    | ok v s₁ =>
      rcases ih s₁ with ⟨vs, s', rest⟩ | ⟨earlier, next, later, e, rfl, ⟨before, fails⟩⟩
      · exact Or.inl ⟨v :: vs, s', .cons run rest⟩
      · exact Or.inr ⟨item :: earlier, next, later, e, rfl, .intro (.cons run before) fails⟩

theorem Succeed.of_append {more : List Item}
    (succeed : Succeed limits files (earlier ++ more) s vs s') :
    ∃ ws s₁ us, vs = ws ++ us ∧ Succeed limits files earlier s ws s₁ ∧
      Succeed limits files more s₁ us s' := by
  induction earlier generalizing s vs with
  | nil => exact ⟨[], s, vs, rfl, .nil, succeed⟩
  | cons item earlier ih =>
    cases succeed with
    | @cons _ _ _ _ _ v _ first rest =>
      obtain ⟨ws, s₁, us, rfl, before, behind⟩ := ih rest
      exact ⟨v :: ws, s₁, us, rfl, .cons first before, behind⟩

theorem Succeed.congr (succeed : Succeed limits files earlier s vs s')
    (same : ∀ item ∈ earlier, ∀ path, item.path? = some path → files' path = files path) :
    Succeed limits files' earlier s vs s' := by
  induction succeed with
  | nil => exact .nil
  | cons first rest ih =>
    obtain ⟨sameFirst, sameRest⟩ := List.forall_mem_cons.mp same
    refine .cons ?_ (ih sameRest)
    rw [Item.run_congr sameFirst]
    exact first

theorem FailsAfter.congr (failsAfter : FailsAfter limits files earlier item s e)
    (same : ∀ opener ∈ earlier ++ [item], ∀ path, opener.path? = some path →
      files' path = files path) :
    FailsAfter limits files' earlier item s e := by
  obtain ⟨before, fails⟩ := failsAfter
  obtain ⟨sameBefore, sameItem⟩ := List.forall_mem_append.mp same
  rw [← Item.run_congr (List.forall_mem_singleton.mp sameItem)] at fails
  exact .intro (before.congr sameBefore) fails

def Progress.withoutNotes (p : Progress) : Progress := { p with notes := [] }

theorem runItems_append (before : Succeed limits files earlier s vs s₁)
    (silent : ∀ item ∈ earlier, item.path? ≠ none) (more : List Item) :
    (runItems limits files (earlier ++ more) s).withoutNotes =
      (runItems limits files more s₁).withoutNotes := by
  induction before with
  | nil => rfl
  | @cons item items _ _ _ v _ first _ ih =>
    obtain ⟨path, file⟩ := Option.ne_none_iff_exists'.mp (silent item List.mem_cons_self)
    rw [← ih fun next member => silent next (List.mem_cons_of_mem _ member)]
    rw [List.cons_append, runItems, Item.evaluate_eq_run, first]
    simp only [Progress.withoutNotes, Item.printed_of_file file, String.empty_append]

theorem runItems_of_error (fails : (item.call files).run limits s = .error e s')
    (later : List Item) :
    (runItems limits files (item :: later) s).withoutNotes = ⟨s', "", [], some e⟩ := by
  rw [runItems, Item.evaluate_eq_run, fails]
  rfl

theorem runItems_of_last {v : Value} (evaluated : (item.call files).run limits s = .ok v s') :
    (runItems limits files [item] s).withoutNotes = ⟨s', item.printed v, [], none⟩ := by
  rw [runItems, Item.evaluate_eq_run, evaluated]
  simp [runItems, Progress.withoutNotes]

/-- A run that its arguments ask for, under a recursion limit that can be set and without notes, and
what it evaluates before its read loop: prelude files, files and the expression. -/
structure Prepared (invocation : Invocation) (options : Options) (limit : Option Nat)
    (agenda : List Item) : Prop where
  accepted : request invocation.arguments = .run options
  setting : Settings.recursionLimit invocation.vars = .ok limit
  settable : ∀ units, limit = some units → ownUnits < units ∧ units ≤ maxLimit
  quiet : noteLevel < Settings.logLevel invocation.vars
  listed : agenda = (Settings.preludeFiles invocation.vars).map .preludeFile ++
    options.files.map .sourceFile ++ options.expr.toList.map .expression

def limitsUnder (limit : Option Nat) : Limits := (limit.map .ofRecursion).getD .standard

def expressionOutput (options : Options) (values : List Value) : String :=
  match options.expr, values.getLast? with
  | some _, some .unspecified => ""
  | some _, some v => v.printed ++ "\n"
  | _, _ => ""

theorem expressionOutput_of_none {options : Options} (asked : options.expr = none)
    (values : List Value) : expressionOutput options values = "" := by
  rw [expressionOutput, asked]

theorem expressionOutput_concat {options : Options} {source : String}
    (asked : options.expr = some source) (values : List Value) (v : Value) :
    expressionOutput options (values ++ [v]) = (Item.expression source).printed v := by
  rw [expressionOutput, asked, List.getLast?_concat]
  cases v <;> rfl

def loopOutput (invocation : Invocation) (options : Options) (limits : Limits) (input : String)
    (s : Store) : String :=
  if options.interactive = true ∨ options.files = [] ∧ options.expr = none then
    (ReadLoop.run limits (Settings.prompt invocation.vars) input s).1
  else ""

theorem writeNotes_of_quiet {vars : Variables} (quiet : noteLevel < Settings.logLevel vars)
    (notes : List Note) : writeNotes vars notes = "" := by
  rw [writeNotes, if_neg (Nat.not_le.mpr quiet)]

theorem startsLoop_iff (options : Options) :
    startsLoop options = true ↔
      options.interactive = true ∨ options.files = [] ∧ options.expr = none := by
  simp [startsLoop]

theorem failed_of_reported (evaluated : e ≠ .stackExhausted)
    (named : ∀ path, e ≠ .file path .nullCharacter) :
    failed "" "" e = ⟨.exit 1, "", "error: " ++ e.message ++ "\n"⟩ := by
  unfold failed
  split
  · rename_i path
    exact absurd rfl (named path)
  · exact absurd rfl evaluated
  · simp

theorem failed_ne_zero (e : Failure) : (failed "" "" e).outcome ≠ .exit 0 := by
  unfold failed
  split <;> simp

def loading (invocation : Invocation) (options : Options) : List Item :=
  (Settings.preludeFiles invocation.vars).map .preludeFile ++ options.files.map .sourceFile

theorem opens_of_loading {invocation : Invocation} {options : Options} :
    ∀ opener ∈ loading invocation options, opener.path? ≠ none := by
  intro opener member
  rcases List.mem_append.mp member with prelude | source
  · obtain ⟨path, -, rfl⟩ := List.mem_map.mp prelude
    simp [Item.path?]
  · obtain ⟨name, -, rfl⟩ := List.mem_map.mp source
    simp [Item.path?]

namespace Prepared

variable {invocation : Invocation} {options : Options} {limit : Option Nat} {agenda : List Item}

theorem unusableLimit?_eq_none (prepared : Prepared invocation options limit agenda) :
    limit.bind unusableLimit? = none := by
  cases limit with
  | none => rfl
  | some units =>
    obtain ⟨above, below⟩ := prepared.settable units rfl
    change unusableLimit? units = none
    rw [unusableLimit?, if_neg (Nat.not_lt.mpr below), if_neg (Nat.not_le.mpr above)]

theorem run_eq (prepared : Prepared invocation options limit agenda) {p : Progress}
    (left : (runItems (limitsUnder limit) invocation.files agenda .initial).withoutNotes = p)
    (input : String) :
    run invocation input =
      match p.failure with
      | some e => failed p.output "" e
      | none => ⟨.exit 0,
          p.output ++ loopOutput invocation options (limitsUnder limit) input p.store, ""⟩ := by
  subst left
  have agreed : agenda = items (Settings.preludeFiles invocation.vars) options := prepared.listed
  rw [run, start, prepared.accepted]
  simp only [prepared.setting, prepared.unusableLimit?_eq_none, startOptions, limitsUnder, agreed,
    writeNotes_of_quiet prepared.quiet, Progress.withoutNotes]
  cases (runItems _ _ _ _).failure with
  | some e => rfl
  | none =>
    by_cases loops : startsLoop options = true
    · simp [loops, Loop.finish, loopOutput, (startsLoop_iff options).mp loops,
        writeNotes_of_quiet prepared.quiet]
    · have ends := mt (startsLoop_iff options).mpr loops
      simp [loops, loopOutput, ends]

/-- The expression stands last, so that only files stand before an item. -/
theorem opens_of_earlier (prepared : Prepared invocation options limit agenda)
    (split : agenda = earlier ++ item :: later) : ∀ opener ∈ earlier, opener.path? ≠ none := by
  have whole : loading invocation options ++ options.expr.toList.map .expression =
      earlier ++ item :: later := prepared.listed.symm.trans split
  -- At most one item stands behind the files, so that those before `item` are files.
  have single : (options.expr.toList.map Item.expression).length ≤ 1 := by
    cases options.expr <;> simp
  have shorter : earlier.length ≤ (loading invocation options).length := by
    have lengths := congrArg List.length whole
    simp only [List.length_append, List.length_cons] at lengths
    omega
  have front : earlier <+: loading invocation options ++ options.expr.toList.map .expression := by
    rw [whole]
    exact List.prefix_append earlier _
  have among := List.prefix_of_prefix_length_le front (List.prefix_append _ _) shorter
  intro opener member
  exact opens_of_loading opener (among.subset member)

theorem run_of_succeed (prepared : Prepared invocation options limit agenda)
    (succeed : Succeed (limitsUnder limit) invocation.files agenda .initial vs s) (input : String) :
    run invocation input = ⟨.exit 0, expressionOutput options vs ++
      loopOutput invocation options (limitsUnder limit) input s, ""⟩ := by
  have whole : agenda = loading invocation options ++ options.expr.toList.map .expression :=
    prepared.listed
  rw [whole] at succeed
  obtain ⟨ws, s₁, us, rfl, loaded, rest⟩ := succeed.of_append
  -- The files leave the store `s₁` and write nothing; the rest is the expression, if there is one.
  have left := runItems_append loaded opens_of_loading (options.expr.toList.map .expression)
  rw [← whole] at left
  cases asked : options.expr with
  | none =>
    rw [asked] at left rest
    cases rest
    rw [prepared.run_eq left input, expressionOutput_of_none asked]
    rfl
  | some source =>
    rw [asked] at left rest
    cases rest with
    | cons evaluated behind =>
      cases behind
      rw [prepared.run_eq (left.trans (runItems_of_last evaluated)) input,
        expressionOutput_concat asked]

theorem run_of_failsAfter (prepared : Prepared invocation options limit agenda)
    (split : agenda = earlier ++ item :: later)
    (failsAfter : FailsAfter (limitsUnder limit) invocation.files earlier item .initial e)
    (input : String) : run invocation input = failed "" "" e := by
  obtain ⟨before, fails⟩ := failsAfter
  have left := runItems_append before (prepared.opens_of_earlier split) (item :: later)
  rw [← split, runItems_of_error fails] at left
  exact prepared.run_eq left input

end Prepared

/-- The prelude files, the files and the expression of a run are evaluated in this order in one
session, and the run ends well exactly when all of them do. Then it writes the value of the
expression and, if there is one, what the read loop writes in the session that is left. Otherwise
the first failure is all that it writes; files, expressions and input behind it may be any others.
The one failure that is not reported is that of a path with a null character in it. A report that
the steps ran out says nothing of a program: it stands for a run that never ends. -/
theorem run_ends_at_first_failure (invocation : Invocation) (options : Options)
    (limit : Option Nat) (agenda : List Item)
    (prepared : Prepared invocation options limit agenda) (input : String) :
    let limits := limitsUnder limit
    let report := run invocation input
    (report.outcome = .exit 0 ↔
      ∃ vs s, Succeed limits invocation.files agenda .initial vs s) ∧
      (∀ vs s, Succeed limits invocation.files agenda .initial vs s →
        report = ⟨.exit 0, expressionOutput options vs ++
          loopOutput invocation options limits input s, ""⟩) ∧
      ((¬ ∃ vs s, Succeed limits invocation.files agenda .initial vs s) →
        ∃ earlier item later e, agenda = earlier ++ item :: later ∧
          FailsAfter limits invocation.files earlier item .initial e) ∧
      ∀ earlier item later e, agenda = earlier ++ item :: later →
        FailsAfter limits invocation.files earlier item .initial e →
          ((∀ path, item.path? = some path → invocation.files path ≠ .error .nullCharacter) →
            report = ⟨.exit 1, "", "error: " ++ e.message ++ "\n"⟩) ∧
          (∀ path, item.path? = some path → invocation.files path = .error .nullCharacter →
            report = ⟨.unusable (.nullCharacter path), "", ""⟩) ∧
          ∀ other options' later' input',
            Prepared other options' limit (earlier ++ item :: later') →
            (∀ opener ∈ earlier ++ [item], ∀ path, opener.path? = some path →
              other.files path = invocation.files path) →
            run other input' = report := by
  intro limits report
  have ending := succeed_or_fails limits invocation.files agenda .initial
  refine ⟨⟨?_, ?_⟩, ?_, ?_, ?_⟩
  · intro well
    rcases ending with succeed | ⟨earlier, item, later, e, split, failsAfter⟩
    · exact succeed
    · have known : report = failed "" "" e := prepared.run_of_failsAfter split failsAfter input
      rw [known] at well
      exact absurd well (failed_ne_zero e)
  · rintro ⟨vs, s, succeed⟩
    rw [show report = _ from prepared.run_of_succeed succeed input]
  · intro vs s succeed
    exact prepared.run_of_succeed succeed input
  · intro none
    exact ending.resolve_left none
  · intro earlier item later e split failsAfter
    have known : report = failed "" "" e := prepared.run_of_failsAfter split failsAfter input
    refine ⟨?_, ?_, ?_⟩
    · intro named
      rw [known]
      obtain ⟨before, fails⟩ := failsAfter
      apply failed_of_reported (Item.ne_stackExhausted_of_error fails)
      rintro path rfl
      obtain ⟨opens, fault⟩ := Item.null_of_error fails
      exact named path opens fault
    · intro path opens fault
      obtain ⟨before, fails⟩ := failsAfter
      rw [Item.run_of_null opens fault] at fails
      cases fails
      exact known
    · intro other options' later' input' prepared' same
      rw [known]
      exact prepared'.run_of_failsAfter rfl (failsAfter.congr same) input'

instance decidableEqResult : DecidableEq (EStateM.Result Failure Store Value)
  | .ok v s, .ok w t => decidable_of_iff (v = w ∧ s = t) (by simp)
  | .error e s, .error f t => decidable_of_iff (e = f ∧ s = t) (by simp)
  | .ok _ _, .error _ _ => .isFalse (by simp)
  | .error _ _, .ok _ _ => .isFalse (by simp)

/-- The second file fails behind a definition of its own and one of the prelude. A run without the
items behind it, in which the missing file is there, has the same report. -/
theorem items_behind_failure_left_alone :
    let octets (text : String) : FileEntry := .file (text.toList.map Char.toUInt8)
    let entries := [(["prelude"], octets "(define x #t)"), (["lib"], octets "x"),
      (["file"], octets "(define y x) (y)")]
    let vars : Variables := [("TRAMP_PRELUDE_PATH", "prelude")]
    let invocation : Invocation :=
      ⟨["lib", "file", "missing", "-e", "y", "-i"], vars, (FileTree.mk entries).read⟩
    let options : Options := ⟨["lib", "file", "missing"], some "y", true⟩
    let other : Invocation := ⟨["lib", "file", "missing"], vars,
      (FileTree.mk (entries ++ [(["missing"], octets "z")])).read⟩
    let earlier : List Item := [.preludeFile (.ofText "prelude"), .sourceFile "lib"]
    let e : Failure := .halt (.error (.notAProcedure (.bool true)))
    Prepared invocation options none
        (earlier ++ .sourceFile "file" :: [.sourceFile "missing", .expression "y"]) ∧
      FailsAfter (limitsUnder none) invocation.files earlier (.sourceFile "file") .initial e ∧
      run invocation "x\n" = ⟨.exit 1, "", "error: Not a procedure: #t\n"⟩ ∧
      run other "" = run invocation "x\n" := by
  intro octets entries vars invocation options other earlier e
  have prepared : Prepared invocation options none
      (earlier ++ .sourceFile "file" :: [.sourceFile "missing", .expression "y"]) :=
    ⟨by decide +kernel, rfl, by simp, by decide +kernel, by decide +kernel⟩
  have prepared' : Prepared other ⟨["lib", "file", "missing"], none, false⟩ none
      (earlier ++ .sourceFile "file" :: [.sourceFile "missing"]) :=
    ⟨by decide +kernel, rfl, by simp, by decide +kernel, by decide +kernel⟩
  let s := Store.initial.define Store.globalFrame "x" (.bool true)
  let s' := s.define Store.globalFrame "y" (.bool true)
  have prelude : Session.load (limitsUnder none) invocation.files (.ofText "prelude") .initial =
      .ok .unspecified s := by decide +kernel
  have lib : Session.load (limitsUnder none) invocation.files (.ofText "lib") s =
      .ok (.bool true) s := by decide +kernel
  have file : Session.load (limitsUnder none) invocation.files (.ofText "file") s =
      .error e s' := by decide +kernel
  have failsAfter : FailsAfter (limitsUnder none) invocation.files earlier (.sourceFile "file")
      .initial e := .intro (.cons prelude (.cons lib .nil)) file
  obtain ⟨-, -, -, decided⟩ :=
    run_ends_at_first_failure invocation options none _ prepared "x\n"
  obtain ⟨reported, -, alone⟩ := decided _ _ _ e rfl failsAfter
  have named : ∀ path, (Item.sourceFile "file").path? = some path →
      invocation.files path ≠ .error .nullCharacter := by
    intro path opens
    cases opens
    have known : invocation.files (.ofText "file") =
        .ok ("(define y x) (y)".toList.map Char.toUInt8) := rfl
    rw [known]
    simp
  have same : ∀ opener ∈ earlier ++ [.sourceFile "file"], ∀ path, opener.path? = some path →
      other.files path = invocation.files path := by
    intro opener member path opens
    simp only [earlier, List.cons_append, List.nil_append, List.mem_cons, List.not_mem_nil,
      or_false] at member
    rcases member with rfl | rfl | rfl
    all_goals
      cases opens
      rfl
  have message : e.message = "Not a procedure: #t" := by decide +kernel
  refine ⟨prepared, failsAfter, ?_, alone other _ _ "" prepared' same⟩
  rw [reported named, message]
  rfl

/-- A run with one file, the name of which has a null character in it, fails without an exit
status. -/
theorem null_character_not_reported :
    let invocation : Invocation := ⟨["a\x00b"], [], (FileTree.mk []).read⟩
    let agenda : List Item := [.sourceFile "a\x00b"]
    Prepared invocation ⟨["a\x00b"], none, false⟩ none agenda ∧
      (¬ ∃ vs s, Succeed (limitsUnder none) invocation.files agenda .initial vs s) ∧
      (run invocation "").outcome ≠ .exit 1 ∧
      run invocation "" = ⟨.unusable (.nullCharacter (.ofText "a\x00b")), "", ""⟩ := by
  intro invocation agenda
  have prepared : Prepared invocation ⟨["a\x00b"], none, false⟩ none agenda :=
    ⟨by decide +kernel, rfl, by simp, by decide +kernel, by decide +kernel⟩
  refine ⟨prepared, ?_, by decide +kernel, by decide +kernel⟩
  rintro ⟨vs, s, succeed⟩
  change Succeed _ _ [.sourceFile "a\x00b"] _ _ _ at succeed
  cases succeed with
  | cons first rest => cases first

end CommandLine

end Schemelet
