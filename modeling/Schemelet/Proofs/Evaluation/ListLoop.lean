import Schemelet.Proofs.Evaluation.Bounded
import Schemelet.Proofs.Store.Parameters

/-! A loop over a list, written in the language itself: by one tail call each, the elements of a
list are put in front of an accumulator. The loop takes two steps and one frame for each element,
and never more than three levels. -/

namespace Schemelet

namespace Reversal

def shorter : Value := .ofList [.symbol "cdr", .symbol "xs"]

def longer : Value :=
  .ofList [.symbol "cons", .ofList [.symbol "car", .symbol "xs"], .symbol "acc"]

/-- `(if (null? xs) acc (rev (cdr xs) (cons (car xs) acc)))` -/
def body : Value :=
  .ofList [.symbol "if", .ofList [.symbol "null?", .symbol "xs"], .symbol "acc",
    .ofList [.symbol "rev", shorter, longer]]

def procedure : Value := .closure ["xs", "acc"] body Store.globalFrame

/-- `(rev (quote xs) (quote acc))` -/
def call (xs acc : Value) : Value :=
  .ofList [.symbol "rev", .ofList [.symbol "quote", xs], .ofList [.symbol "quote", acc]]

structure Defined (s : Store) (env : FrameId) : Prop where
  isNull : s.lookup? env "null?" = some (.primitive .isNull)
  car : s.lookup? env "car" = some (.primitive .car)
  cdr : s.lookup? env "cdr" = some (.primitive .cdr)
  cons : s.lookup? env "cons" = some (.primitive .cons)
  rev : s.lookup? env "rev" = some procedure

def enter (s : Store) (xs acc : Value) : Store :=
  (s.allocate (.ofBindings (some Store.globalFrame) (["xs", "acc"].zip [xs, acc]))).2

theorem size_enter (s : Store) (xs acc : Value) :
    (enter s xs acc).frames.size = s.frames.size + 1 :=
  s.size_allocate _

section

variable {s : Store} {env : FrameId} {acc : Value} (defined : Defined s env)
  (accumulator : s.lookup? env "acc" = some acc)

include defined

theorem yields_test {xs : Value} (list : s.lookup? env "xs" = some xs) :
    Yields 1 2 env (.ofList [.symbol "null?", .symbol "xs"]) s (.bool (xs = .empty)) s :=
  .primitive rfl defined.isNull (.cons (.variable list 0) .nil) rfl

include accumulator

theorem yields_arguments {first rest : Value}
    (list : s.lookup? env "xs" = some (.pair first rest)) :
    YieldsAll 2 3 env [shorter, longer] s [rest, .pair first acc] s := by
  have arguments : YieldsAll 0 1 env [.symbol "xs"] s [.pair first rest] s :=
    .cons (.variable list 0) .nil
  have next : Yields 1 2 env shorter s rest s := .primitive rfl defined.cdr arguments rfl
  have element : Yields 1 2 env (.ofList [.symbol "car", .symbol "xs"]) s first s :=
    .primitive rfl defined.car arguments rfl
  have gathered : Yields 2 3 env longer s (.pair first acc) s :=
    .primitive rfl defined.cons (.cons element (.cons (.variable accumulator 1) .nil)) rfl
  exact .cons (next.mono (by decide) (by decide)) (.cons gathered .nil)

end

section

variable {s : Store} (defined : Defined s Store.globalFrame)

include defined

theorem Defined.global : Store.globalFrame < s.frames.size := by
  apply Nat.lt_of_not_le
  intro absent
  have missing : s.frames[Store.globalFrame]? = none := Array.getElem?_eq_none absent
  have bound := defined.rev
  rw [Store.lookup?, Store.chain, missing] at bound
  cases bound

theorem lookup?_enter (xs acc : Value) (name : String) :
    (enter s xs acc).lookup? s.frames.size name =
      ((Frame.mk [("xs", xs), ("acc", acc)] none).get? name).or
        (s.lookup? Store.globalFrame name) :=
  Store.lookup?_new (Frame.outer_ofBindings ..) defined.global name

theorem Defined.inside (xs acc : Value) : Defined (enter s xs acc) s.frames.size :=
  ⟨(lookup?_enter defined xs acc _).trans defined.isNull,
    (lookup?_enter defined xs acc _).trans defined.car,
    (lookup?_enter defined xs acc _).trans defined.cdr,
    (lookup?_enter defined xs acc _).trans defined.cons,
    (lookup?_enter defined xs acc _).trans defined.rev⟩

theorem Defined.entered (xs acc : Value) : Defined (enter s xs acc) Store.globalFrame := by
  have same : (enter s xs acc).chain Store.globalFrame = s.chain Store.globalFrame :=
    Store.chain_allocate s _ defined.global
  obtain ⟨isNull, car, cdr, cons, rev⟩ := defined
  constructor <;> rw [Store.lookup?, same] <;> assumption

theorem yields_last (acc : Value) :
    Yields 3 3 s.frames.size body (enter s .empty acc) acc (enter s .empty acc) := by
  have list := lookup?_enter defined .empty acc "xs"
  have accumulator := lookup?_enter defined .empty acc "acc"
  have tested := (yields_test (defined.inside .empty acc) list).mono (show 1 ≤ 2 by decide)
    (Nat.le_refl 2)
  exact .branch rfl tested (.variable accumulator 3)

/-- One turn of the loop: with an element more to go, the value is that of the next turn, two steps
later and no level down. -/
theorem yields_next {first rest acc v : Value} {steps : Nat} {s' : Store}
    (value : Yields 3 (steps + 3) (enter s (.pair first rest) acc).frames.size body
      (enter (enter s (.pair first rest) acc) rest (.pair first acc)) v s') :
    Yields 3 (steps + 5) s.frames.size body (enter s (.pair first rest) acc) v s' := by
  have inside := defined.inside (.pair first rest) acc
  have list := lookup?_enter defined (.pair first rest) acc "xs"
  have accumulator := lookup?_enter defined (.pair first rest) acc "acc"
  have tested := (yields_test inside list).mono (show 1 ≤ 2 by decide)
    (show 2 ≤ steps + 4 by omega)
  have arguments := (yields_arguments inside accumulator list).mono (show 3 ≤ steps + 3 by omega)
  have call : Yields 3 (steps + 4) s.frames.size (.ofList [.symbol "rev", shorter, longer])
      (enter s (.pair first rest) acc) v s' :=
    .call rfl inside.rev arguments rfl value
  exact .branch rfl tested call

end

theorem yields_body {s : Store} (defined : Defined s Store.globalFrame) (items : List Value)
    (acc : Value) :
    ∃ s', s.Keeps s' ∧ s'.frames.size = s.frames.size + items.length + 1 ∧
      Yields 3 (2 * items.length + 3) s.frames.size body (enter s (.ofList items) acc)
        (.chain items.reverse acc) s' := by
  induction items generalizing s acc with
  | nil => exact ⟨enter s .empty acc, s.keeps_allocate _, size_enter .., yields_last defined acc⟩
  | cons first items ih =>
    have entered := defined.entered (.ofList (first :: items)) acc
    obtain ⟨s', keeps, size, value⟩ := ih entered (.pair first acc)
    have result : Value.chain (first :: items).reverse acc =
        .chain items.reverse (.pair first acc) := by
      simp [Value.chain]
    refine ⟨s', (s.keeps_allocate _).trans keeps, ?_, ?_⟩
    · rw [size, size_enter, List.length_cons]
      omega
    · rw [result]
      exact yields_next defined value

theorem yields_call {s s' : Store} (defined : Defined s Store.globalFrame) {xs acc v : Value}
    {steps : Nat} (value : Yields 3 (steps + 1) s.frames.size body (enter s xs acc) v s') :
    Yields 3 (steps + 2) Store.globalFrame (call xs acc) s v s' := by
  have arguments : YieldsAll 2 (steps + 1) Store.globalFrame
      [.ofList [.symbol "quote", xs], .ofList [.symbol "quote", acc]] s [xs, acc] s :=
    .cons (.quotation ..) (.cons (.quotation ..) .nil)
  exact .call rfl defined.rev arguments rfl value

end Reversal

/-- The loop is right for every list and takes the same three levels for all of them. It leaves the
global frame, and every other one that was there, as it is. -/
theorem list_loop_reverses {s : Store} (defined : Reversal.Defined s Store.globalFrame)
    (items : List Value) (acc : Value) :
    ∃ s', s'.frames[Store.globalFrame]? = s.frames[Store.globalFrame]? ∧ s.Keeps s' ∧
      s'.frames.size = s.frames.size + items.length + 1 ∧
      ∀ (limit : Limit) (steps : Nat), (Limit.atMost 3).Le limit → 2 * items.length + 4 ≤ steps →
        evaluate steps limit Store.globalFrame (Reversal.call (.ofList items) acc) s =
          .ok (.chain items.reverse acc) s' := by
  obtain ⟨s', keeps, size, value⟩ := Reversal.yields_body defined items acc
  have global := Array.getElem?_eq_getElem defined.global
  refine ⟨s', ?_, keeps, size, ?_⟩
  · rw [global, keeps _ _ global]
  · intro limit steps enough allowed
    exact (Reversal.yields_call defined value).within enough allowed

theorem defined_loop_reverses_three :
    let s := Store.initial.define Store.globalFrame "rev" Reversal.procedure
    let items : List Value := [.bool true, .empty, .symbol "a"]
    evaluate 2 (.atMost 1) Store.globalFrame
        (.ofList [.symbol "define", .symbol "rev",
          .ofList [.symbol "lambda", .ofList [.symbol "xs", .symbol "acc"], Reversal.body]])
        Store.initial = .ok .unspecified s ∧
      Reversal.Defined s Store.globalFrame ∧
      ∃ s', s'.frames[Store.globalFrame]? = s.frames[Store.globalFrame]? ∧ s.Keeps s' ∧
        s'.frames.size = 5 ∧
        ∀ (limit : Limit) (steps : Nat), (Limit.atMost 3).Le limit → 10 ≤ steps →
          evaluate steps limit Store.globalFrame (Reversal.call (.ofList items) (.text "end")) s =
            .ok (.chain [.symbol "a", .empty, .bool true] (.text "end")) s' := by
  intro s items
  have defined : Reversal.Defined s Store.globalFrame := by
    constructor <;> decide +kernel
  exact ⟨rfl, defined, list_loop_reverses defined items (.text "end")⟩

end Schemelet
