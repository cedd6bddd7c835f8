import Schemelet.Proofs.Reader.Advance
import Schemelet.Proofs.Reader.Raising

/-! What holds of everything that is read. It is enough that it holds of atoms and is kept where
expressions are put together, in quotations and in lists. It may depend on how many levels are open
around an expression, none of which is above the limit. -/

namespace Schemelet.Reader

/-- A property of expressions, by the number of levels around them, that reading the tokens
keeps. -/
structure Grows (limit : Limit) (tokens : List Token) (P : Nat → Value → Prop) : Prop where
  atom : ∀ token ∈ tokens, ∀ depth, limit.allows depth = true → P depth (.ofAtom token.text)
  quotation : ∀ (depth : Nat) (v : Value), P (depth + 1) v → P depth (quotation v)
  list : ∀ (depth : Nat) (items : List Value), limit.allows (depth + 1) = true →
    (∀ v ∈ items, P (depth + 1) v) → P depth (.ofList items)

variable {limit : Limit} {P : Nat → Value → Prop} {tokens rest : List Token}

theorem Grows.mono {fewer : List Token} (grows : Grows limit tokens P) (among : fewer ⊆ tokens) :
    Grows limit fewer P :=
  ⟨fun token member => grows.atom token (among member), grows.quotation, grows.list⟩

def Open (limit : Limit) (P : Nat → Value → Prop) : List Level → Prop
  | [] => True
  | .quote :: levels => limit.allows (levels.length + 1) = true ∧ Open limit P levels
  | .list items :: levels =>
    limit.allows (levels.length + 1) = true ∧ (∀ v ∈ items, P (levels.length + 1) v) ∧
      Open limit P levels

theorem Open.allows {levels : List Level} (opened : Open limit P levels) :
    limit.allows levels.length = true := by
  match levels, opened with
  | [], _ => cases limit <;> simp [Limit.allows]
  | .quote :: _, opened => exact opened.1
  | .list _ :: _, opened => exact opened.1

def Progress.Has (limit : Limit) (P : Nat → Value → Prop) : Progress → Prop
  | .done v => P 0 v
  | .more levels => Open limit P levels

namespace Grows

variable (grows : Grows limit tokens P)

include grows

theorem deliver {v : Value} {levels : List Level} (has : P levels.length v)
    (opened : Open limit P levels) : (deliver v levels).Has limit P := by
  fun_induction Reader.deliver v levels with
  | case1 v => exact has
  | case2 v levels ih => exact ih (grows.quotation _ v has) opened.2
  | case3 v items levels =>
    exact ⟨opened.1, List.forall_mem_cons.mpr ⟨has, opened.2.1⟩, opened.2.2⟩

theorem advance {levels : List Level} {token : Token} {progress : Progress}
    (member : token ∈ tokens) (opened : Open limit P levels)
    (next : advance limit levels token = .ok progress) : progress.Has limit P := by
  have deeper (level : Level)
      (empty : limit.allows (levels.length + 1) = true → Open limit P (level :: levels))
      (next : (if limit.allows (levels.length + 1) then Except.ok (.more (level :: levels))
        else .error ReadError.tooDeep) = .ok progress) : progress.Has limit P := by
    split at next
    · rename_i allowed
      cases next
      exact empty allowed
    · cases next
  have newList (allowed : limit.allows (levels.length + 1) = true) :
      Open limit P (.list [] :: levels) :=
    ⟨allowed, List.forall_mem_nil _, opened⟩
  unfold Reader.advance at next
  split at next
  · cases next
    exact grows.deliver (grows.atom token member _ opened.allows) opened
  · exact deeper .quote (fun allowed => ⟨allowed, opened⟩) next
  · split at next
    · rename_i items levels
      cases next
      refine grows.deliver (grows.list _ _ opened.1 ?_) opened.2.2
      intro v inside
      exact opened.2.1 v (List.mem_reverse.mp inside)
    · cases next
  · exact deeper (.list []) newList next

omit grows in
theorem readFrom {levels : List Level} {v : Value} (grows : Grows limit tokens P)
    (opened : Open limit P levels) (read : readFrom limit levels tokens = (.ok v, rest)) :
    P 0 v := by
  induction tokens generalizing levels with
  | nil => cases read
  | cons token tokens ih =>
    rw [readFrom_cons] at read
    cases next : Reader.advance limit levels token with
    | error e =>
      rw [next] at read
      cases read
    | ok progress =>
      have advanced := grows.advance List.mem_cons_self opened next
      rw [next] at read
      cases progress with
      | done w =>
        cases read
        exact advanced
      | more levels' => exact ih (grows.mono (List.subset_cons_self token tokens)) advanced read

theorem readNext {v : Value} (read : readNext limit tokens = (.ok v, rest)) : P 0 v := by
  have opened : Open limit P [] := trivial
  exact grows.readFrom opened read

omit grows in
theorem readAll (grows : Grows limit tokens P) :
    ∀ v ∈ (Reader.readAll limit tokens).values, P 0 v := by
  induction size : tokens.length using Nat.strongRecOn generalizing tokens with
  | ind n ih =>
    intro v member
    by_cases nonempty : tokens = []
    · rw [nonempty, readAll_nil] at member
      cases member
    · rcases read : Reader.readNext limit tokens with ⟨result, rest⟩
      cases result with
      | error e =>
        rw [readAll_of_error nonempty read] at member
        cases member
      | ok w =>
        have shorter := readNext_rest_shorter nonempty read
        have suffix := readFrom_suffix limit [] tokens
        change (Reader.readNext limit tokens).2 <:+ tokens at suffix
        rw [read] at suffix
        rw [readAll_of_ok nonempty read] at member
        rcases List.mem_cons.mp member with rfl | later
        · exact grows.readNext read
        · exact ih rest.length (by omega) (grows.mono suffix.subset) rfl v later

theorem readSingle {v : Value} (read : readSingle limit tokens = .ok v) : P 0 v := by
  unfold Reader.readSingle at read
  split at read
  · rename_i complete
    cases read
    exact grows.readNext complete
  · cases read
  · cases read

end Grows

end Schemelet.Reader
