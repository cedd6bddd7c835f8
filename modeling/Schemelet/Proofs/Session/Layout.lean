import Schemelet.Proofs.Session.Concatenation
import Schemelet.Proofs.Text.Utf8

/-! Sources that differ in their blanks only. Where two words of the one are apart, those of the
other are, and so they have the same tokens; with the tokens everything else is the same. Unifying
the line ends of a file changes its blanks only. -/

namespace Schemelet

namespace Text

/-- The same characters but for blanks. A gap may be made of other blanks and be longer or shorter,
but not empty, and at the end there may be any blanks. -/
inductive Respaced : List Char → List Char → Prop where
  | stop {gap gap' : List Char} (blank : ∀ c ∈ gap, isBlank c = true)
      (blank' : ∀ c ∈ gap', isBlank c = true) : Respaced gap gap'
  | visible {c : Char} {cs ds : List Char} (visible : isBlank c = false) (rest : Respaced cs ds) :
      Respaced (c :: cs) (c :: ds)
  | gap {gap gap' cs ds : List Char} (nonempty : gap ≠ []) (nonempty' : gap' ≠ [])
      (blank : ∀ c ∈ gap, isBlank c = true) (blank' : ∀ c ∈ gap', isBlank c = true)
      (rest : Respaced cs ds) : Respaced (gap ++ cs) (gap' ++ ds)

def SameLayout (cs ds : List Char) : Prop :=
  ∃ start start' rest rest', cs = start ++ rest ∧ ds = start' ++ rest' ∧
    (∀ c ∈ start, isBlank c = true) ∧ (∀ c ∈ start', isBlank c = true) ∧ Respaced rest rest'

theorem Respaced.word {word cs ds : List Char} (visible : ∀ c ∈ word, isBlank c = false)
    (rest : Respaced cs ds) : Respaced (word ++ cs) (word ++ ds) := by
  induction word with
  | nil => exact rest
  | cons c word ih =>
    refine .visible (visible c List.mem_cons_self) (ih ?_)
    intro d member
    exact visible d (List.mem_cons_of_mem c member)

theorem Respaced.sameLayout {cs ds : List Char} (respaced : Respaced cs ds) : SameLayout cs ds :=
  ⟨[], [], cs, ds, rfl, rfl, by simp, by simp, respaced⟩

theorem respaced_unifyNewlines (cs : List Char) : Respaced cs (Utf8.unifyNewlines cs) := by
  have single {c : Char} (blank : isBlank c = true) : ∀ d ∈ [c], isBlank d = true :=
    List.forall_mem_singleton.mpr blank
  have lineFeed : ∀ c ∈ ['\n'], isBlank c = true := single (by decide)
  fun_induction Utf8.unifyNewlines cs with
  | case1 => exact .stop (by simp) (by simp)
  | case2 rest ih =>
    have both : ∀ c ∈ ['\r', '\n'], isBlank c = true :=
      List.forall_mem_cons.mpr ⟨by decide, lineFeed⟩
    exact .gap (by simp) (by simp) both lineFeed ih
  | case3 c rest other ih =>
    split
    · rename_i carriage
      rw [carriage]
      exact .gap (by simp) (by simp) (single (by decide)) lineFeed ih
    · cases blank : isBlank c with
      | true => exact .gap (by simp) (by simp) (single blank) (single blank) ih
      | false => exact .visible blank ih

end Text

namespace Token

theorem scan_gap {gap rest : List Char} (blank : ∀ c ∈ gap, Text.isBlank c = true)
    (ends : gap = [] → rest = []) (pending : List Char) :
    scan pending (gap ++ rest) = endAtom pending (scan [] rest) := by
  have boundary : Boundary (gap ++ rest) := by
    cases gap with
    | nil => simp [ends rfl, Boundary]
    | cons c gap => exact boundary_of_blank (blank c List.mem_cons_self) _
  rw [scan_boundary pending boundary, scan_blanks blank]

theorem scan_respaced {cs ds : List Char} (respaced : Text.Respaced cs ds) (pending : List Char) :
    scan pending cs = scan pending ds := by
  induction respaced generalizing pending with
  | @stop gap gap' blank blank' =>
    have first := scan_gap blank (fun _ => rfl) pending
    have second := scan_gap blank' (fun _ => rfl) pending
    rw [List.append_nil] at first second
    rw [first, second]
  | visible _ _ ih => simp only [scan, ih]
  | gap nonempty nonempty' blank blank' _ ih =>
    rw [scan_gap blank fun none => absurd none nonempty,
      scan_gap blank' fun none => absurd none nonempty', ih]

theorem ofSource_of_sameLayout {source other : String}
    (same : Text.SameLayout source.toList other.toList) : ofSource source = ofSource other := by
  obtain ⟨start, start', rest, rest', split, split', blank, blank', respaced⟩ := same
  rw [ofSource, ofSource, split, split', scan_blanks blank, scan_blanks blank',
    scan_respaced respaced]

end Token

namespace Session

theorem evalSource_of_tokens (limits : Limits) {source other : String}
    (same : Token.ofSource source = Token.ofSource other) :
    evalSource limits source = evalSource limits other := by
  unfold evalSource readAll
  rw [same]

theorem load_of_decode (limits : Limits) {files : Files} {path : Path} {bytes : List UInt8}
    {cs : List Char} (found : files path = .ok bytes) (decoded : Utf8.decode bytes = .ok cs) :
    load limits files path = evalSource limits (String.ofList cs) := by
  have text : readText files path = .ok (String.ofList (Utf8.unifyNewlines cs)) := by
    simp only [readText, found, decoded]
  rw [load_of_text text]
  apply evalSource_of_tokens
  symm
  apply Token.ofSource_of_sameLayout
  rw [String.toList_ofList, String.toList_ofList]
  exact (Text.respaced_unifyNewlines cs).sameLayout

end Session

/-- Sources that differ in their blanks only have the same tokens, read as the same expressions with
the same fault, and are evaluated with the same outcome and store. So a file is evaluated as the
text that its octets decode to, for every text, although its line ends are unified before. -/
theorem layout_never_changes_meaning (limits : Limits) :
    (∀ source other : String, Text.SameLayout source.toList other.toList →
      Token.ofSource source = Token.ofSource other ∧
        readAll limits.reading source = readAll limits.reading other ∧
        Session.evalSource limits source = Session.evalSource limits other) ∧
      (∀ (files : Files) (path : Path) (bytes : List UInt8) (cs : List Char),
        files path = .ok bytes → Utf8.decode bytes = .ok cs →
          Session.load limits files path = Session.evalSource limits (String.ofList cs)) ∧
      ∀ (files : Files) (path : Path) (text : String),
        files path = .ok (Utf8.encode text.toList) →
          Session.load limits files path = Session.evalSource limits text := by
  refine ⟨?_, ?_, ?_⟩
  · intro source other same
    have tokens := Token.ofSource_of_sameLayout same
    refine ⟨tokens, ?_, Session.evalSource_of_tokens limits tokens⟩
    rw [readAll, readAll, tokens]
  · intro files path bytes cs found decoded
    exact Session.load_of_decode limits found decoded
  · intro files path text found
    rw [Session.load_of_decode limits found (Utf8.decode_encode text.toList), String.ofList_toList]

theorem line_ends_and_wide_blank_respaced :
    let limits : Limits := ⟨9, .unlimited, .atMost 3⟩
    let source := "(define\r\nx\u3000#t)\r)"
    let other := "\n(define\tx  #t) )  "
    let files : Files := fun _ => .ok (Utf8.encode source.toList)
    Text.SameLayout source.toList other.toList ∧
      (readAll limits.reading other).fault = some .unexpectedClosing ∧
      Token.ofSource source = Token.ofSource other ∧
      Session.evalSource limits source = Session.evalSource limits other ∧
      Session.load limits files (.ofText "file") = Session.evalSource limits other := by
  intro limits source other files
  have blank {gap : List Char} (all : gap.all Text.isBlank = true) :
      ∀ c ∈ gap, Text.isBlank c = true := List.all_eq_true.mp all
  have visible {word : List Char} (all : word.all (!Text.isBlank ·) = true) :
      ∀ c ∈ word, Text.isBlank c = false := by simpa using all
  have closing : Text.Respaced (")".toList ++ []) (")".toList ++ "  ".toList) :=
    .word (visible (by decide)) (.stop (by simp) (blank (by decide)))
  have truth : Text.Respaced ("#t)".toList ++ ("\r".toList ++ ")".toList))
      ("#t)".toList ++ (" ".toList ++ (")".toList ++ "  ".toList))) :=
    .word (visible (by decide))
      (.gap (by decide) (by decide) (blank (by decide)) (blank (by decide)) closing)
  have name : Text.Respaced ("x".toList ++ ("\u3000".toList ++ "#t)\r)".toList))
      ("x".toList ++ ("  ".toList ++ "#t) )  ".toList)) :=
    .word (visible (by decide))
      (.gap (by decide) (by decide) (blank (by decide)) (blank (by decide)) truth)
  have form : Text.Respaced ("(define".toList ++ ("\r\n".toList ++ "x\u3000#t)\r)".toList))
      ("(define".toList ++ ("\t".toList ++ "x  #t) )  ".toList)) :=
    .word (visible (by decide))
      (.gap (by decide) (by decide) (blank (by decide)) (blank (by decide)) name)
  have same : Text.SameLayout source.toList other.toList :=
    ⟨[], ['\n'], _, _, by decide, by decide, by simp, blank (by decide), form⟩
  have fault : (readAll limits.reading other).fault = some .unexpectedClosing := by decide +kernel
  obtain ⟨sources, -, texts⟩ := layout_never_changes_meaning limits
  obtain ⟨tokens, -, evaluated⟩ := sources source other same
  have loaded := texts files (.ofText "file") source rfl
  exact ⟨same, fault, tokens, evaluated, loaded.trans evaluated⟩

end Schemelet
