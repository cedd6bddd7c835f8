import Schemelet.CommandLine.Run
import Schemelet.Proofs.Reader.Concatenation
import Schemelet.Proofs.Session.Expressions
import Schemelet.Proofs.Session.Raising

/-! Sources evaluated one after the other, and as one. The expressions of the first source are
evaluated before the second is looked at in either way, and a failure ends both at the same
place. -/

namespace Schemelet

namespace Session

variable {limits : Limits}

theorem evalSource_of_whole {source : String}
    (whole : (readAll limits.reading source).fault = none) :
    evalSource limits source =
      evaluateAll limits .unspecified (readAll limits.reading source).values := by
  rw [Call.evalSource_eq]
  simp only [sourceVerdict, whole]
  exact bind_pure _

theorem evaluateAll_verdict (v : Value) (source : String) :
    (evaluateAll limits v (readAll limits.reading source).values >>= fun w =>
      SessionM.ofExcept (sourceVerdict limits source w)) =
      evalSource limits source >>= fun w =>
        pure (if (readAll limits.reading source).values = [] then v else w) := by
  rw [Call.evalSource_eq, bind_assoc]
  cases (readAll limits.reading source).values with
  | nil =>
    simp only [evaluateAll, pure_bind, sourceVerdict, if_true]
    cases (readAll limits.reading source).fault <;> rfl
  | cons expr exprs =>
    simp only [evaluateAll, sourceVerdict, List.cons_ne_nil, if_false]
    cases (readAll limits.reading source).fault <;> rfl

theorem evalSource_append {source : String} (whole : (readAll limits.reading source).fault = none)
    {blanks : String} (nonempty : blanks ≠ "") (blank : ∀ c ∈ blanks.toList, Text.isBlank c = true)
    (more : String) :
    evalSource limits (source ++ blanks ++ more) = (do
      let v ← evalSource limits source
      let w ← evalSource limits more
      pure (if (readAll limits.reading more).values = [] then v else w)) := by
  have reading := readAll_source_append whole nonempty blank more
  have verdict : sourceVerdict limits (source ++ blanks ++ more) = sourceVerdict limits more := by
    funext v
    unfold sourceVerdict
    rw [reading]
  rw [Call.evalSource_eq, reading, verdict, evaluateAll_append, bind_assoc,
    evalSource_of_whole whole]
  apply bind_congr
  intro v
  exact evaluateAll_verdict v more

theorem load_of_text {files : Files} {path : Path} {text : String}
    (known : readText files path = .ok text) : load limits files path = evalSource limits text := by
  unfold load
  rw [known]

theorem loadAll_joined {files : Files} {paths : List Path} {texts : List String}
    (known : List.Forall₂ (fun path text => readText files path = .ok text) paths texts)
    (whole : ∀ text ∈ texts.dropLast, (readAll limits.reading text).fault = none) :
    loadAll limits files paths =
      evalSource limits ("\n".intercalate texts) >>= fun _ => pure () := by
  induction known with
  | nil =>
    have nothing : readAll limits.reading ("\n".intercalate []) = ⟨[], none, []⟩ :=
      Reader.readAll_nil limits.reading
    rw [evalSource_of_whole (by rw [nothing]), nothing]
    rfl
  | @cons path text paths texts first rest ih =>
    rw [loadAll, load_of_text first]
    cases texts with
    | nil =>
      cases rest
      rw [String.intercalate_singleton]
      rfl
    | cons next texts =>
      rw [List.dropLast_cons_cons] at whole
      have newline : "\n".toList.all Text.isBlank = true := by decide
      rw [ih fun text member => whole text (List.mem_cons_of_mem _ member),
        String.intercalate_cons_cons,
        evalSource_append (whole text List.mem_cons_self) (by decide)
          (List.all_eq_true.mp newline)]
      simp only [bind_assoc, pure_bind]

end Session

namespace CommandLine

def Progress.result (p : Progress) : EStateM.Result Failure Store Unit :=
  match p.failure with
  | none => .ok () p.store
  | some e => .error e p.store

theorem Progress.eq_of_result {p q : Progress} (same : p.result = q.result) :
    p.store = q.store ∧ p.failure = q.failure := by
  unfold result at same
  cases first : p.failure with
  | none =>
    cases second : q.failure with
    | none =>
      rw [first, second] at same
      exact ⟨(EStateM.Result.ok.inj same).2, rfl⟩
    | some e =>
      rw [first, second] at same
      cases same
  | some e =>
    cases second : q.failure with
    | none =>
      rw [first, second] at same
      cases same
    | some e' =>
      rw [first, second] at same
      obtain ⟨rfl, stores⟩ := EStateM.Result.error.inj same
      exact ⟨stores, rfl⟩

theorem runItems_sourceFiles (limits : Limits) (files : Files) (names : List String) (s : Store) :
    (runItems limits files (names.map .sourceFile) s).output = "" ∧
      (runItems limits files (names.map .sourceFile) s).result =
        Session.loadAll limits files (names.map .ofText) s := by
  induction names generalizing s with
  | nil => exact ⟨rfl, rfl⟩
  | cons name names ih =>
    simp only [List.map_cons, runItems, Item.evaluate, Session.loadAll]
    cases run : Session.load limits files (.ofText name) s with
    | ok v s' =>
      rw [bind_of_ok run]
      exact ih s'
    | error e s' =>
      rw [bind_of_error run]
      exact ⟨rfl, rfl⟩

end CommandLine

open Session CommandLine

/-- Where a source is read to its end, what follows behind blanks is read and evaluated as a source
of its own. So files are evaluated in order as one file is that holds their texts, a line feed
between any two of them. -/
theorem sources_evaluated_as_joined (limits : Limits) :
    (∀ source blanks more : String, (readAll limits.reading source).fault = none → blanks ≠ "" →
      (∀ c ∈ blanks.toList, Text.isBlank c = true) →
        readAll limits.reading (source ++ blanks ++ more) =
          { readAll limits.reading more with
            values := (readAll limits.reading source).values ++
              (readAll limits.reading more).values } ∧
        evalSource limits (source ++ blanks ++ more) = (do
          let v ← evalSource limits source
          let w ← evalSource limits more
          pure (if (readAll limits.reading more).values = [] then v else w))) ∧
      ∀ (files : Files) (names texts : List String) (joined : String) (s : Store),
        List.Forall₂ (fun name text => readText files (.ofText name) = .ok text) names texts →
        (∀ text ∈ texts.dropLast, (readAll limits.reading text).fault = none) →
        readText files (.ofText joined) = .ok ("\n".intercalate texts) →
          let each := runItems limits files (names.map .sourceFile) s
          let one := runItems limits files [.sourceFile joined] s
          each.store = one.store ∧ each.output = one.output ∧ each.failure = one.failure := by
  constructor
  · intro source blanks more whole nonempty blank
    exact ⟨readAll_source_append whole nonempty blank more,
      evalSource_append whole nonempty blank more⟩
  · intro files names texts joined s known whole file each one
    obtain ⟨silent, ends⟩ := runItems_sourceFiles limits files names s
    obtain ⟨silent', ends'⟩ := runItems_sourceFiles limits files [joined] s
    have paths : List.Forall₂ (fun path text => readText files path = .ok text)
        (names.map .ofText) texts := List.forall₂_map_left_iff.mpr known
    have same : each.result = one.result := by
      rw [ends, loadAll_joined paths whole]
      refine Eq.trans ?_ ends'.symm
      rw [List.map_cons, List.map_nil, loadAll, load_of_text file]
      rfl
    obtain ⟨stores, failures⟩ := Progress.eq_of_result same
    exact ⟨stores, silent.trans silent'.symm, failures⟩

theorem fault_in_last_file_found :
    let limits : Limits := ⟨9, .unlimited, .atMost 3⟩
    let files : Files := fun path =>
      let text := match path.parts with
        | ["first"] => "(define x #t)"
        | ["last"] => "x) y"
        | _ => "(define x #t)\nx) y"
      .ok (text.toList.map Char.toUInt8)
    let each := runItems limits files [.sourceFile "first", .sourceFile "last"] Store.initial
    let one := runItems limits files [.sourceFile "joined"] Store.initial
    (readAll limits.reading "(define x #t)").fault = none ∧
      each.failure = some (.read .unexpectedClosing) ∧ each.store ≠ Store.initial ∧
      (each.store = one.store ∧ each.output = one.output ∧ each.failure = one.failure) ∧
      (readAll limits.reading ("(define x #t)" ++ "\t \n" ++ "x) y")).fault =
        (readAll limits.reading "x) y").fault := by
  intro limits files each one
  have whole : (readAll limits.reading "(define x #t)").fault = none := by decide +kernel
  have failure : each.failure = some (.read .unexpectedClosing) := by decide +kernel
  have defined : each.store ≠ Store.initial := by decide +kernel
  have first : readText files (.ofText "first") = .ok "(define x #t)" := by decide +kernel
  have last : readText files (.ofText "last") = .ok "x) y" := by decide +kernel
  have joined : readText files (.ofText "joined") = .ok "(define x #t)\nx) y" := by decide +kernel
  obtain ⟨sources, inOrder⟩ := sources_evaluated_as_joined limits
  have same := inOrder files ["first", "last"] ["(define x #t)", "x) y"] "joined" Store.initial
    (.cons first (.cons last .nil)) (List.forall_mem_singleton.mpr whole) joined
  have blank : "\t \n".toList.all Text.isBlank = true := by decide
  have reading := sources "(define x #t)" "\t \n" "x) y" whole (by decide)
    (List.all_eq_true.mp blank)
  exact ⟨whole, failure, defined, same, by rw [reading.1]⟩

end Schemelet
