import SkyCatalog.Proofs.Query.Grammar
import SkyCatalog.Query.Parser

/-!
# Precedence and grouping

Reading a sentence gives its tree (`build_toPostfix_lexemes`). The lexemes are followed
through both steps at once: `Reads` says that what is held and what is finished, together
with the lexemes still to come, end in one operand. Within parentheses at most two
operators wait, an `OR` below an `AND`, each for its right operand (`Waiting`). A term
puts one finished operand on the stack; a sentence leaves what the operators that wait
and its groups come to (`Groups.after`).
-/

namespace SkyCatalog.Query

/-! ## What one lexeme does -/

section Shunt

variable {holding rest : List Lexeme} {l : Lexeme}

theorem shunt_condition {c : Condition} (h : l.token = .condition c) :
    shunt holding (l :: rest) = (shunt holding rest).map (l :: ·) := by
  rw [shunt, h]
  rfl

theorem shunt_operator {op : Operator} (h : l.token = .operator op) :
    shunt holding (l :: rest) = (shunt (l :: holding.dropWhile (Lexeme.yieldsTo op)) rest).map
      (holding.takeWhile (Lexeme.yieldsTo op) ++ ·) := by
  rw [shunt, h]
  rfl

theorem shunt_leftParen (h : l.token = .leftParen) :
    shunt holding (l :: rest) = shunt (l :: holding) rest := by
  rw [shunt, h]

theorem shunt_rightParen (h : l.token = .rightParen) {barrier : Lexeme} {outer : List Lexeme}
    (hdrop : holding.dropWhile (!·.isBarrier) = barrier :: outer) :
    shunt holding (l :: rest) =
      (shunt outer rest).map (holding.takeWhile (!·.isBarrier) ++ ·) := by
  rw [shunt, h]
  simp only [hdrop]
  rfl

theorem shunt_unmatched (h : l.token = .rightParen)
    (hdrop : holding.dropWhile (!·.isBarrier) = []) :
    shunt holding (l :: rest) = .error ⟨.unmatchedClose, l.span⟩ := by
  rw [shunt, h]
  simp only [hdrop]

end Shunt

/-! ## Both steps at once -/

/-- The lexemes that are held and those to come are reordered, and then turn a stack into
another. -/
def Reads (holding : List Lexeme) (stack : List Operand) (lexemes : List Lexeme)
    (final : List Operand) : Prop :=
  ∃ out, shunt holding lexemes = .ok out ∧ assemble stack out = .ok final

theorem assemble_append (stack : List Operand) (a b : List Lexeme) :
    assemble stack (a ++ b) = (assemble stack a).bind fun after => assemble after b := by
  -- by induction on the first part; an error in it is an error of the whole
  induction a generalizing stack with
  | nil => rfl
  | cons l rest ih =>
      rw [List.cons_append, assemble, assemble]
      cases l.token with
      | condition c => exact ih _
      | leftParen => rfl
      | rightParen => rfl
      | operator op =>
          cases stack with
          | nil => rfl
          | cons right below =>
              cases below with
              | nil => rfl
              | cons left below => exact ih _

section Reads

variable {holding outer : List Lexeme} {stack after final : List Operand} {rest : List Lexeme}

theorem Reads.condition {c : Condition} {span : Span}
    (h : Reads holding (⟨.leaf c, span⟩ :: stack) rest final) :
    Reads holding stack (⟨.condition c, span⟩ :: rest) final := by
  obtain ⟨out, hout, hfinal⟩ := h
  refine ⟨⟨.condition c, span⟩ :: out, ?_, hfinal⟩
  rw [shunt_condition rfl, hout]
  rfl

theorem Reads.leftParen {span : Span}
    (h : Reads (⟨.leftParen, span⟩ :: holding) stack rest final) :
    Reads holding stack (⟨.leftParen, span⟩ :: rest) final := by
  obtain ⟨out, hout, hfinal⟩ := h
  exact ⟨out, hout, hfinal⟩

/-- The operators that yield to an operator take their operands before it is held. -/
theorem Reads.operator {op : Operator} {span : Span}
    (hrelease : assemble stack (holding.takeWhile (Lexeme.yieldsTo op)) = .ok after)
    (h : Reads (⟨.operator op, span⟩ :: holding.dropWhile (Lexeme.yieldsTo op)) after rest
      final) :
    Reads holding stack (⟨.operator op, span⟩ :: rest) final := by
  obtain ⟨out, hout, hfinal⟩ := h
  refine ⟨holding.takeWhile (Lexeme.yieldsTo op) ++ out, ?_, ?_⟩
  · rw [shunt_operator rfl, hout]
    rfl
  · rw [assemble_append, hrelease]
    exact hfinal

/-- The operators since the opening parenthesis take their operands when it is closed. -/
theorem Reads.rightParen {ops : List Lexeme} {opening closing : Span}
    (hops : ∀ l ∈ ops, l.isBarrier = false) (hrelease : assemble stack ops = .ok after)
    (h : Reads outer after rest final) :
    Reads (ops ++ ⟨.leftParen, opening⟩ :: outer) stack (⟨.rightParen, closing⟩ :: rest)
      final := by
  obtain ⟨out, hout, hfinal⟩ := h
  have hpass : ∀ l ∈ ops, (!l.isBarrier) = true := by
    intro l hl
    rw [hops l hl]
    rfl
  have hbarrier : (!Lexeme.isBarrier ⟨.leftParen, opening⟩) = false := rfl
  have htake : (ops ++ ⟨.leftParen, opening⟩ :: outer).takeWhile (!·.isBarrier) = ops := by
    rw [List.takeWhile_append_of_pos hpass, List.takeWhile_cons_of_neg (by simp [hbarrier]),
      List.append_nil]
  have hdrop : (ops ++ ⟨.leftParen, opening⟩ :: outer).dropWhile (!·.isBarrier) =
      ⟨.leftParen, opening⟩ :: outer := by
    rw [List.dropWhile_append_of_pos hpass, List.dropWhile_cons_of_neg (by simp [hbarrier])]
  refine ⟨ops ++ out, ?_, ?_⟩
  · rw [shunt_rightParen rfl hdrop, htake, hout]
    rfl
  · rw [assemble_append, hrelease]
    exact hfinal

/-- At the end all operators take their operands. -/
theorem Reads.nil {ops : List Lexeme} (hops : ∀ l ∈ ops, l.isBarrier = false)
    (hrelease : assemble stack ops = .ok final) : Reads ops stack [] final := by
  have hnone : ops.find? Lexeme.isBarrier = none :=
    List.find?_eq_none.mpr fun l hl => by simp [hops l hl]
  exact ⟨ops, by rw [shunt, releaseAll, hnone], hrelease⟩

end Reads

/-! ## Operators that wait -/

/-- An operator that waits for its right operand. -/
structure Waiting where
  span : Span
  left : Operand

/-- The operator that waits, as it is held. -/
def held (op : Operator) (w : Option Waiting) : List Lexeme :=
  w.toList.map fun w => ⟨.operator op, w.span⟩

/-- The left operand of the operator that waits. -/
def lefts (w : Option Waiting) : List Operand :=
  w.toList.map (·.left)

/-- The right operand has come. -/
def complete (op : Operator) (w : Option Waiting) (right : Operand) : Operand :=
  match w with
  | none => right
  | some w => ⟨.binary op w.left.expr right.expr, (w.left.span.merge right.span).merge w.span⟩

theorem assemble_held (op : Operator) (w : Option Waiting) (right : Operand)
    (stack : List Operand) :
    assemble (right :: (lefts w ++ stack)) (held op w) = .ok (complete op w right :: stack) := by
  cases w <;> rfl

theorem not_isBarrier_of_mem_held {op : Operator} {w : Option Waiting} {l : Lexeme}
    (h : l ∈ held op w) : l.isBarrier = false := by
  obtain ⟨w, -, rfl⟩ := List.mem_map.mp h
  rfl

/-- A list in which the latest, if any, is an opening parenthesis. -/
def Enclosed (base : List Lexeme) : Prop :=
  ∀ l ∈ base.head?, l.isBarrier = true

theorem takeWhile_yieldsTo_of_enclosed {base : List Lexeme} (h : Enclosed base)
    (op : Operator) : base.takeWhile (Lexeme.yieldsTo op) = [] ∧
      base.dropWhile (Lexeme.yieldsTo op) = base := by
  cases base with
  | nil => exact ⟨rfl, rfl⟩
  | cons l rest =>
      have hl : l.token = .leftParen := by simpa [Lexeme.isBarrier] using h l rfl
      have hstop : ¬Lexeme.yieldsTo op l = true := by simp [Lexeme.yieldsTo, hl]
      exact ⟨List.takeWhile_cons_of_neg hstop, List.dropWhile_cons_of_neg hstop⟩

theorem takeWhile_held_append {op latest : Operator} (w : Option Waiting) (below : List Lexeme)
    (h : op.precedence ≤ latest.precedence) :
    (held latest w ++ below).takeWhile (Lexeme.yieldsTo op) =
        held latest w ++ below.takeWhile (Lexeme.yieldsTo op) ∧
      (held latest w ++ below).dropWhile (Lexeme.yieldsTo op) =
        below.dropWhile (Lexeme.yieldsTo op) := by
  have hyield : ∀ l ∈ held latest w, Lexeme.yieldsTo op l = true := by
    intro l hl
    obtain ⟨w, -, rfl⟩ := List.mem_map.mp hl
    exact decide_eq_true h
  exact ⟨List.takeWhile_append_of_pos hyield, List.dropWhile_append_of_pos hyield⟩

section Join

variable {base : List Lexeme} {stack final : List Operand} {rest : List Lexeme} {span : Span}
  {conj disj : Option Waiting} {right : Operand}

/-- An `AND` lets an `AND` that waits go first and leaves an `OR` waiting. -/
theorem Reads.and (hbase : Enclosed base)
    (h : Reads (held .and (some ⟨span, complete .and conj right⟩) ++ (held .or disj ++ base))
      (lefts (some ⟨span, complete .and conj right⟩) ++ (lefts disj ++ stack)) rest final) :
    Reads (held .and conj ++ (held .or disj ++ base))
      (right :: (lefts conj ++ (lefts disj ++ stack))) (⟨.operator .and, span⟩ :: rest) final := by
  obtain ⟨htake, hdrop⟩ := takeWhile_held_append conj (held .or disj ++ base)
    (Nat.le_refl Operator.and.precedence)
  -- neither an `OR` nor an opening parenthesis yields to an `AND`
  have hstop : (held .or disj ++ base).takeWhile (Lexeme.yieldsTo .and) = [] ∧
      (held .or disj ++ base).dropWhile (Lexeme.yieldsTo .and) = held .or disj ++ base := by
    cases disj with
    | none => exact takeWhile_yieldsTo_of_enclosed hbase .and
    | some w => exact ⟨rfl, rfl⟩
  rw [hstop.1, List.append_nil] at htake
  rw [hstop.2] at hdrop
  refine Reads.operator ?_ (hdrop ▸ h)
  rw [htake, assemble_held]
  rfl

/-- An `OR` lets all operators that wait go first. -/
theorem Reads.or (hbase : Enclosed base)
    (h : Reads (held .or (some ⟨span, complete .or disj (complete .and conj right)⟩) ++ base)
      (lefts (some ⟨span, complete .or disj (complete .and conj right)⟩) ++ stack) rest final) :
    Reads (held .and conj ++ (held .or disj ++ base))
      (right :: (lefts conj ++ (lefts disj ++ stack))) (⟨.operator .or, span⟩ :: rest) final := by
  -- both operators yield to an `OR`, and an opening parenthesis does not
  have hlower : Operator.or.precedence ≤ Operator.and.precedence := Nat.zero_le _
  obtain ⟨htake, hdrop⟩ := takeWhile_held_append conj (held .or disj ++ base) hlower
  obtain ⟨htake', hdrop'⟩ := takeWhile_held_append disj base (Nat.le_refl Operator.or.precedence)
  obtain ⟨hnone, hbelow⟩ := takeWhile_yieldsTo_of_enclosed hbase .or
  rw [htake', hnone, List.append_nil] at htake
  rw [hdrop', hbelow] at hdrop
  refine Reads.operator ?_ (hdrop ▸ h)
  rw [htake, assemble_append, assemble_held]
  exact assemble_held .or disj _ stack

end Join

/-! ## Terms and sentences -/

/-- An expression joined to the one before it, if there is one. -/
def joinedTo (op : Operator) (left : Option Expr) (right : Expr) : Expr :=
  match left with
  | none => right
  | some left => .binary op left right

theorem expr_complete (op : Operator) (w : Option Waiting) (right : Operand) :
    (complete op w right).expr = joinedTo op (w.map (·.left.expr)) right.expr := by
  cases w <;> rfl

/-- What groups come to when an `OR` and an `AND` wait before them. -/
def Groups.after (disj conj : Option Expr) (g : Groups) : Expr :=
  let first : Chain := ⟨joinedTo .and conj g.first.first, g.first.rest⟩
  Chain.joined .or ⟨joinedTo .or disj (first.joined .and), g.rest.map (Chain.joined .and)⟩

theorem Groups.after_none (g : Groups) : g.after none none = g.tree :=
  rfl

/-- A term puts its tree on the stack. -/
def Term.Settles (t : Term) : Prop :=
  ∀ holding stack, ∃ o : Operand, o.expr = t.tree ∧
    ∀ rest final, Reads holding (o :: stack) rest final →
      Reads holding stack (t.lexemes ++ rest) final

/-- A sentence leaves operators that have all their operands, and these come to the tree
of the sentence after the operators that waited before it. -/
def Sentence.Settles (e : Sentence) : Prop :=
  ∀ (disj conj : Option Waiting) (base : List Lexeme) (stack : List Operand), Enclosed base →
    ∃ (ops : List Lexeme) (operands : List Operand) (o : Operand),
      o.expr = e.groups.after (disj.map (·.left.expr)) (conj.map (·.left.expr)) ∧
      (∀ l ∈ ops, l.isBarrier = false) ∧ assemble operands ops = .ok (o :: stack) ∧
      ∀ rest final, Reads (ops ++ base) operands rest final →
        Reads (held .and conj ++ (held .or disj ++ base)) (lefts conj ++ (lefts disj ++ stack))
          (e.lexemes ++ rest) final

mutual

theorem Term.settles (t : Term) : t.Settles := by
  intro holding stack
  cases t with
  | condition c span => exact ⟨⟨.leaf c, span⟩, rfl, fun rest final => Reads.condition⟩
  | parens opening inner closing =>
      -- the opening parenthesis keeps apart what waits outside
      have henclosed : Enclosed (⟨.leftParen, opening⟩ :: holding) := by
        intro l hl
        cases hl
        rfl
      obtain ⟨ops, operands, o, ho, hops, hrelease, hread⟩ :=
        inner.settles none none (⟨.leftParen, opening⟩ :: holding) stack henclosed
      refine ⟨o, ho.trans inner.groups.after_none, fun rest final h => ?_⟩
      have hinner : Reads (⟨.leftParen, opening⟩ :: holding) stack
          (inner.lexemes ++ ⟨.rightParen, closing⟩ :: rest) final :=
        hread _ _ (Reads.rightParen hops hrelease h)
      simpa [Term.lexemes] using Reads.leftParen hinner

theorem Sentence.settles (e : Sentence) : e.Settles := by
  intro disj conj base stack hbase
  cases e with
  | term t =>
      -- the last term: what waits is left to be released by what follows
      obtain ⟨o, ho, hread⟩ :=
        t.settles (held .and conj ++ (held .or disj ++ base)) (lefts conj ++ (lefts disj ++ stack))
      refine ⟨held .and conj ++ held .or disj, o :: (lefts conj ++ (lefts disj ++ stack)),
        complete .or disj (complete .and conj o), ?_, ?_, ?_, ?_⟩
      · rw [expr_complete, expr_complete, ho]
        rfl
      · intro l hl
        exact (List.mem_append.mp hl).elim not_isBarrier_of_mem_held not_isBarrier_of_mem_held
      · rw [assemble_append, assemble_held]
        exact assemble_held .or disj _ stack
      · intro rest final h
        rw [List.append_assoc] at h
        exact hread rest final h
  | join t op span rest =>
      -- the term is the right operand of what waits; then the operator waits in its place
      obtain ⟨right, hright, hread⟩ :=
        t.settles (held .and conj ++ (held .or disj ++ base)) (lefts conj ++ (lefts disj ++ stack))
      cases op with
      | and =>
          obtain ⟨ops, operands, o, ho, hops, hrelease, hrest⟩ :=
            rest.settles disj (some ⟨span, complete .and conj right⟩) base stack hbase
          refine ⟨ops, operands, o, ?_, hops, hrelease, fun later final h => ?_⟩
          · rw [ho, Option.map_some, expr_complete, hright]
            rfl
          · have hjoin := hread _ _ (Reads.and hbase (hrest later final h))
            simpa [Sentence.lexemes] using hjoin
      | or =>
          obtain ⟨ops, operands, o, ho, hops, hrelease, hrest⟩ :=
            rest.settles (some ⟨span, complete .or disj (complete .and conj right)⟩) none base stack
              hbase
          refine ⟨ops, operands, o, ?_, hops, hrelease, fun later final h => ?_⟩
          · rw [ho, Option.map_some, expr_complete, expr_complete, hright]
            rfl
          · have hjoin := hread _ _ (Reads.or hbase (hrest later final h))
            simpa [Sentence.lexemes] using hjoin

end

/-- **A sentence is read as its tree.** The lexemes of every sentence, however long and
however deep its parentheses, are reordered, and the result is built into the tree in
which `AND` binds tighter than `OR` and each of them groups to the left. -/
theorem build_toPostfix_lexemes (e : Sentence) :
    ∃ postfixOrder, toPostfix e.lexemes = .ok postfixOrder ∧ build postfixOrder = .ok e.tree := by
  have henclosed : Enclosed [] := fun l hl => by cases hl
  obtain ⟨ops, operands, o, ho, hops, hrelease, hread⟩ := e.settles none none [] [] henclosed
  have hend : Reads (ops ++ []) operands [] [o] :=
    Reads.nil (by simpa using hops) (by simpa using hrelease)
  obtain ⟨out, hout, hfinal⟩ := hread [] [o] hend
  have hpostfix : toPostfix (e.lexemes ++ []) = .ok out := hout
  have hassemble : assemble [] out = .ok [o] := hfinal
  rw [List.append_nil] at hpostfix
  refine ⟨out, hpostfix, ?_⟩
  rw [build, hassemble]
  exact congrArg Except.ok (ho.trans e.groups.after_none)

end SkyCatalog.Query
