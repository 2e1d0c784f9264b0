import SkyCatalog.Query.Expr

/-!
# Evaluation without the conditions that do not matter

Evaluation passes over the right operand where the left one decides. The result is still the
value of the whole tree (`evaluate_eq_value`), and it depends on the conditions that are
consulted and on no others (`consult_congr`). Those are the first condition of the expression
and some of the later ones, in their order (`exists_consult_eq_cons`); they need not be the
first ones, since a decided operand may stand in front of one that is consulted. There is no
negation, so that more conditions that hold never turn a result from true to false
(`value_mono`). `evaluate_short_circuit` puts these together.
-/

namespace SkyCatalog.Query

/-- The Boolean operation that an operator stands for. -/
def Operator.apply : Operator → Bool → Bool → Bool
  | .and, left, right => left && right
  | .or, left, right => left || right

/-- What the left operand decides is the result, whatever the right one is. -/
theorem Operator.apply_of_decided {op : Operator} {left result : Bool}
    (h : op.decided? left = some result) (right : Bool) : op.apply left right = result := by
  cases op <;> cases left <;> cases h <;> rfl

/-- Where the left operand decides nothing, the right one is the result. -/
theorem Operator.apply_of_undecided {op : Operator} {left : Bool}
    (h : op.decided? left = none) (right : Bool) : op.apply left right = right := by
  cases op <;> cases left
  · cases h
  · rfl
  · rfl
  · cases h

theorem Operator.apply_mono (op : Operator) {left left' right right' : Bool}
    (hleft : left = true → left' = true) (hright : right = true → right' = true) :
    op.apply left right = true → op.apply left' right' = true := by
  cases op with
  | and =>
      simp only [Operator.apply, Bool.and_eq_true]
      exact fun h => ⟨hleft h.1, hright h.2⟩
  | or =>
      simp only [Operator.apply, Bool.or_eq_true]
      exact fun h => h.imp hleft hright

namespace Expr

/-- The value of an expression when every condition is looked at. -/
def value (holds : Condition → Bool) : Expr → Bool
  | .leaf c => holds c
  | .binary op left right => op.apply (left.value holds) (right.value holds)

section Consult

variable {holds : Condition → Bool}

/-- An operand that decides ends the evaluation; otherwise the right operand is consulted
too, and the result is its own. -/
theorem consult_binary_cases (holds : Condition → Bool) (op : Operator) (left right : Expr) :
    (∃ result, op.decided? (left.consult holds).1 = some result ∧
      (binary op left right).consult holds = (result, (left.consult holds).2)) ∨
    (op.decided? (left.consult holds).1 = none ∧
      (binary op left right).consult holds =
        ((right.consult holds).1, (left.consult holds).2 ++ (right.consult holds).2)) := by
  cases hdecided : op.decided? (left.consult holds).1 with
  | some result => exact Or.inl ⟨result, rfl, by simp only [consult, hdecided]⟩
  | none => exact Or.inr ⟨rfl, by simp only [consult, hdecided]⟩

theorem evaluate_eq_value (holds : Condition → Bool) (e : Expr) :
    e.evaluate holds = e.value holds := by
  unfold evaluate
  induction e with
  | leaf c => rfl
  | binary op left right ihleft ihright =>
      rw [value, ← ihleft, ← ihright]
      -- the two ways of evaluating an operator agree with applying it to both values
      rcases consult_binary_cases holds op left right with ⟨result, hdecided, h⟩ | ⟨hdecided, h⟩
      · rw [h, Operator.apply_of_decided hdecided]
      · rw [h, Operator.apply_of_undecided hdecided]

/-- The conditions consulted are the first of the expression and, in their order, some of
those behind it. -/
theorem exists_consult_eq_cons (holds : Condition → Bool) (e : Expr) :
    ∃ first later rest, e.conditions = first :: rest ∧
      (e.consult holds).2 = first :: later ∧ later.Sublist rest := by
  induction e with
  | leaf c => exact ⟨c, [], [], rfl, rfl, .slnil⟩
  | binary op left right ihleft ihright =>
      obtain ⟨first, later, rest, hall, hsome, hlater⟩ := ihleft
      obtain ⟨first', later', rest', hall', hsome', hlater'⟩ := ihright
      have hconditions : (binary op left right).conditions =
          first :: (rest ++ right.conditions) := by
        rw [conditions, hall, List.cons_append]
      rcases consult_binary_cases holds op left right with ⟨result, -, h⟩ | ⟨-, h⟩
      · exact ⟨first, later, _, hconditions, by rw [h, hsome],
          hlater.trans (List.sublist_append_left rest right.conditions)⟩
      · -- the first condition of the right operand may follow some that were passed over
        have hright : (right.consult holds).2.Sublist right.conditions := by
          rw [hall', hsome']
          exact hlater'.cons_cons first'
        exact ⟨first, _, _, hconditions, by rw [h, hsome, List.cons_append], hlater.append hright⟩

/-- A predicate that agrees on the conditions consulted leads to the same evaluation. -/
theorem consult_congr {other : Condition → Bool} (e : Expr)
    (h : ∀ c ∈ (e.consult holds).2, other c = holds c) : e.consult other = e.consult holds := by
  induction e with
  | leaf c =>
      have hc : other c = holds c := h c List.mem_cons_self
      simp only [consult, hc]
  | binary op left right ihleft ihright =>
      rcases consult_binary_cases holds op left right with ⟨result, hdecided, hends⟩ |
        ⟨hdecided, hgoes⟩
      · -- the right operand was not consulted, and the left one decides again
        rw [hends] at h ⊢
        simp only [consult, ihleft h, hdecided]
      · rw [hgoes] at h ⊢
        obtain ⟨hleft, hright⟩ := List.forall_mem_append.mp h
        simp only [consult, ihleft hleft, ihright hright, hdecided]

theorem value_mono {larger : Condition → Bool} (hlarger : ∀ c, holds c = true → larger c = true)
    (e : Expr) : e.value holds = true → e.value larger = true := by
  induction e with
  | leaf c => exact hlarger c
  | binary op left right ihleft ihright => exact op.apply_mono ihleft ihright

end Consult

/-- **Passing over operands cannot be told from the result.** Evaluation gives the value of the
whole tree. It consults the first condition and, in their order, some of the later ones, and
nothing else about the predicate matters for the result and for what is consulted. A predicate
that holds of more conditions selects no less. -/
theorem evaluate_short_circuit (e : Expr) (holds : Condition → Bool) :
    e.evaluate holds = e.value holds ∧
    (∃ first later rest, e.conditions = first :: rest ∧
      (e.consult holds).2 = first :: later ∧ later.Sublist rest) ∧
    (∀ other : Condition → Bool, (∀ c ∈ (e.consult holds).2, other c = holds c) →
      e.evaluate other = e.evaluate holds ∧ (e.consult other).2 = (e.consult holds).2) ∧
    (∀ larger : Condition → Bool, (∀ c, holds c = true → larger c = true) →
      e.evaluate holds = true → e.evaluate larger = true) := by
  refine ⟨evaluate_eq_value holds e, exists_consult_eq_cons holds e, ?_, ?_⟩
  · intro other hother
    have hsame := consult_congr e hother
    exact ⟨congrArg Prod.fst hsame, congrArg Prod.snd hsame⟩
  · intro larger hlarger
    rw [evaluate_eq_value, evaluate_eq_value]
    exact value_mono hlarger e

/-- The first of three conditions fails, so that the second one is passed over and the third
one decides. What is passed over may hold or not, and with all three the result is true as
well. -/
theorem evaluate_short_circuit_gap :
    let e : Expr := .binary .or (.binary .and (.leaf ⟨.name, "M33"⟩) (.leaf ⟨.pgc, "1"⟩))
      (.leaf ⟨.pgc, "2"⟩)
    let holds : Condition → Bool := fun c => c = ⟨.pgc, "2"⟩
    let other : Condition → Bool := fun c => c.criterion = .pgc
    (e.consult holds).2 = [⟨.name, "M33"⟩, ⟨.pgc, "2"⟩] ∧
      (∀ c ∈ (e.consult holds).2, other c = holds c) ∧
      (e.consult other).2 = (e.consult holds).2 ∧
      (∀ c, holds c = true → other c = true) ∧ e.evaluate other = true := by
  intro e holds other
  have hagree : ∀ c ∈ (e.consult holds).2, other c = holds c := by decide
  have hlarger : ∀ c, holds c = true → other c = true := by
    intro c hc
    have heq : c = ⟨.pgc, "2"⟩ := of_decide_eq_true hc
    rw [heq]
    rfl
  obtain ⟨-, -, hother, hmore⟩ := evaluate_short_circuit e holds
  exact ⟨by decide, hagree, (hother other hagree).2, hlarger, hmore other hlarger (by decide)⟩

end Expr

end SkyCatalog.Query
