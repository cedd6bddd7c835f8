import Schemelet.Proofs.Evaluation.Run
import Schemelet.Proofs.Store.Change

/-! Evaluation writes to its own frame only. A definition writes to the frame in which the
expression is evaluated, and the frame of a called closure is new, so no run reaches an older frame;
this holds of every prefix of a run, wherever it is cut short. -/

namespace Schemelet

def finalState {ε σ α : Type} : EStateM.Result ε σ α → σ
  | .ok _ s => s
  | .error _ s => s

variable {cut : Halt → Prop}

theorem changesOnly_of_done {env : FrameId} {vs : List Value} {expr v : Value} {s s' : Store}
    (finished : finish env vs expr s = .ok (.done v) s') : s.ChangesOnly env s' := by
  have finishes := finish_finishes env vs s expr
  rw [finished] at finishes
  cases finishes with
  | define => exact s.changesOnly_define env _ _
  | _ => exact .refl env s

theorem eq_of_fails {env : FrameId} {vs : List Value} {expr : Value} {h : Halt} {s s' : Store}
    (finished : finish env vs expr s = .error h s') : s' = s := by
  have finishes := finish_finishes env vs s expr
  rw [finished] at finishes
  cases finishes
  rfl

theorem tail_cases {env env' : FrameId} {vs : List Value} {expr expr' : Value} {s s' : Store}
    (finished : finish env vs expr s = .ok (.tail expr' env') s') :
    (env' = env ∧ s' = s ∧ ∃ operator operands, expr = .pair operator operands ∧
        expr' ∈ operands.elements) ∨
      (s.frames.size ≤ env' ∧ s.Keeps s') := by
  have finishes := finish_finishes env vs s expr
  rw [finished] at finishes
  cases finishes with
  | part member => exact .inl ⟨rfl, rfl, _, _, rfl, member⟩
  | call => exact .inr ⟨Nat.le_refl _, s.keeps_allocate _⟩

theorem keeps_of_newFrame {own : FrameId} {s s₁ s' : Store} (new : s.frames.size ≤ own)
    (kept : s.Keeps s₁) (change : s₁.ChangesOnly own s') : s.Keeps s' := by
  have whole : s.ChangesOnly own s' := (kept.changesOnly own).trans change
  exact whole.keeps_of_new new

mutual
theorem changesOnly_of_runs {env : FrameId} {expr : Value} {s : Store}
    {r : EStateM.Result Halt Store Value} :
    Runs cut env expr s r → s.ChangesOnly env (finalState r)
  | .cut _ => .refl env s
  | .demandFails first => changesOnly_of_runsAll first
  | .fails first rest => by
    rw [eq_of_fails rest]
    exact changesOnly_of_runsAll first
  | .done first rest => by
    have demanded := changesOnly_of_runsAll first
    exact demanded.trans (changesOnly_of_done rest)
  | .tail first rest next => by
    have demanded := changesOnly_of_runsAll first
    have continued := changesOnly_of_runs next
    rcases tail_cases rest with ⟨rfl, rfl, _⟩ | ⟨new, kept⟩
    · exact demanded.trans continued
    · exact demanded.trans ((keeps_of_newFrame new kept continued).changesOnly env)

theorem changesOnly_of_runsAll {env : FrameId} {exprs : List Value} {s : Store}
    {r : EStateM.Result Halt Store (List Value)} :
    RunsAll cut env exprs s r → s.ChangesOnly env (finalState r)
  | .nil => .refl env s
  | .cons head tail => by
    have first := changesOnly_of_runs head
    have rest := changesOnly_of_runsAll tail
    exact first.trans rest
  | .headFails head => changesOnly_of_runs head
  | .tailFails head tail => by
    have first := changesOnly_of_runs head
    have rest := changesOnly_of_runsAll tail
    exact first.trans rest
end

def Value.mentions (name : String) : Value → Bool
  | .symbol word => word = name
  | .pair a d => a.mentions name || d.mentions name
  | _ => false

namespace Value

variable {name : String}

theorem free_of_pair {a d : Value} :
    (pair a d).mentions name = false ↔ a.mentions name = false ∧ d.mentions name = false :=
  Bool.or_eq_false_iff

theorem free_ofList {items : List Value} (free : ∀ v ∈ items, v.mentions name = false) :
    (ofList items).mentions name = false := by
  induction items with
  | nil => rfl
  | cons item items ih =>
    have rest := ih fun v member => free v (List.mem_cons_of_mem _ member)
    exact free_of_pair.mpr ⟨free item List.mem_cons_self, rest⟩

theorem free_of_mem {v w : Value} (member : v ∈ w.elements) (free : w.mentions name = false) :
    v.mentions name = false := by
  induction w with
  | pair a d _ ih =>
    obtain ⟨first, rest⟩ := free_of_pair.mp free
    rcases List.mem_cons.mp member with rfl | later
    · exact first
    · exact ih later rest
  | _ => simp [elements] at member

end Value

theorem mem_elements_of_mem_demands {form : Form} {operands expr : Value}
    (member : expr ∈ form.demands operands) : expr ∈ operands.elements := by
  cases form with
  | quotation => cases member
  | abstraction => cases member
  | conditional =>
    rcases Form.conditional_cases operands with ⟨e, fault⟩ | ⟨test, yes, no, shape⟩
    · rw [Form.demands_of_misshapen fault] at member
      cases member
    · rw [Form.demands_conditional shape] at member
      rw [Value.elements_of_toList? shape]
      exact List.mem_cons.mpr (.inl (List.mem_singleton.mp member))
  | definition =>
    rcases Form.definition_cases operands with ⟨e, fault⟩ | ⟨name, value, shape⟩
    · rw [Form.demands_of_misshapen fault] at member
      cases member
    · rw [Form.demands_definition shape] at member
      rw [Value.elements_of_toList? shape]
      exact List.mem_cons_of_mem _ member
  | sequence =>
    rcases Form.sequence_cases operands with ⟨e, fault⟩ | ⟨exprs, shape⟩
    · rw [Form.demands_of_misshapen fault] at member
      cases member
    · rw [Form.demands_sequence shape] at member
      rw [Value.elements_of_toList? shape]
      exact (List.dropLast_sublist exprs).subset member

theorem free_of_mem_demands {name : String} {expr part : Value} (member : part ∈ demands expr)
    (free : expr.mentions name = false) : part.mentions name = false := by
  cases expr with
  | pair operator operands =>
    simp only [Value.mentions, Bool.or_eq_false_iff] at free
    rcases form_or_plain operator with ⟨form, rfl⟩ | plain
    · rw [demands_form] at member
      exact Value.free_of_mem (mem_elements_of_mem_demands member) free.2
    · rw [demands_application plain, List.mem_cons] at member
      rcases member with rfl | member
      · exact free.1
      · exact Value.free_of_mem member free.2
  | _ => simp [demands] at member

theorem keeps_of_done {env : FrameId} {vs : List Value} {expr v : Value} {s s' : Store}
    (free : expr.mentions "define" = false)
    (finished : finish env vs expr s = .ok (.done v) s') : s.Keeps s' := by
  have finishes := finish_finishes env vs s expr
  rw [finished] at finishes
  cases finishes with
  | define => simp [Value.mentions] at free
  | _ => exact .refl s

-- Without a definition in the expression every part that runs in the own frame is without one, and
-- what runs in a new frame is covered by the general statement.
mutual
theorem keeps_of_runs {env : FrameId} {expr : Value} {s : Store}
    {r : EStateM.Result Halt Store Value} :
    Runs cut env expr s r → expr.mentions "define" = false → s.Keeps (finalState r)
  | .cut _, _ => .refl s
  | .demandFails first, free =>
    keeps_of_runsAll first fun _ member => free_of_mem_demands member free
  | .fails first rest, free => by
    rw [eq_of_fails rest]
    exact keeps_of_runsAll first fun _ member => free_of_mem_demands member free
  | .done first rest, free => by
    have demanded := keeps_of_runsAll first fun _ member => free_of_mem_demands member free
    exact demanded.trans (keeps_of_done free rest)
  | .tail first rest next, free => by
    have demanded := keeps_of_runsAll first fun _ member => free_of_mem_demands member free
    have continued := keeps_of_runs next
    have changed := changesOnly_of_runs next
    rcases tail_cases rest with ⟨rfl, rfl, operator, operands, rfl, member⟩ | ⟨new, kept⟩
    · simp only [Value.mentions, Bool.or_eq_false_iff] at free
      exact demanded.trans (continued (Value.free_of_mem member free.2))
    · exact demanded.trans (keeps_of_newFrame new kept changed)

theorem keeps_of_runsAll {env : FrameId} {exprs : List Value} {s : Store}
    {r : EStateM.Result Halt Store (List Value)} :
    RunsAll cut env exprs s r → (∀ expr ∈ exprs, expr.mentions "define" = false) →
      s.Keeps (finalState r)
  | .nil, _ => .refl s
  | .cons head tail, free => by
    have first := keeps_of_runs head (free _ List.mem_cons_self)
    have rest := keeps_of_runsAll tail fun expr member => free expr (List.mem_cons_of_mem _ member)
    exact first.trans rest
  | .headFails head, free => keeps_of_runs head (free _ List.mem_cons_self)
  | .tailFails head tail, free => by
    have first := keeps_of_runs head (free _ List.mem_cons_self)
    have rest := keeps_of_runsAll tail fun expr member => free expr (List.mem_cons_of_mem _ member)
    exact first.trans rest
end

end Schemelet
