import Mathlib.Data.List.Induction
import SkyCatalog.Proofs.Query.Reordering

/-!
# Building is the inverse of writing in postorder

The operands on the stack are the expressions whose postorders make up the lexemes that are used
up (`Stacked`, `assemble_eq_ok_iff`), each with the spans of its part merged into one
(`Operand.Covers`). So a sequence is built into an expression exactly if its tokens are the
postorder of the expression (`build_eq_ok_iff_postorder`).

Any other sequence fails. If it has a lexeme that cannot stand where it stands (`misplaced?`), then
it fails at the first one (`assemble_ends`). If it has none it is a sequence of postorders, and none
of them or more than one is at fault. `build_inverts_postorder` puts these together.
-/

namespace SkyCatalog.Query

/-- The tokens of an expression, every operator behind its operands. -/
def Expr.postorder : Expr → List Token
  | .leaf c => [.condition c]
  | .binary op left right => left.postorder ++ (right.postorder ++ [.operator op])

theorem Expr.postorder_ne_nil (e : Expr) : e.postorder ≠ [] := by
  cases e <;> simp [Expr.postorder]

/-- The spans of lexemes merged into one. -/
def hull : List Lexeme → Span
  | [] => .origin
  | [l] => l.span
  | l :: next :: rest => l.span.merge (hull (next :: rest))

theorem hull_append {a b : List Lexeme} (ha : a ≠ []) (hb : b ≠ []) :
    hull (a ++ b) = (hull a).merge (hull b) := by
  induction a with
  | nil => exact absurd rfl ha
  | cons l rest ih =>
      cases rest with
      | nil =>
          obtain ⟨m, tail, rfl⟩ := List.exists_cons_of_ne_nil hb
          rfl
      | cons next rest =>
          rw [List.cons_append, List.cons_append, hull, ← List.cons_append,
            ih (List.cons_ne_nil next rest), hull, Span.merge_assoc]

/-! ## Operands and the lexemes they are read from -/

/-- The lexemes are the postorder of an operand, and their spans make up its span. -/
structure Operand.Covers (o : Operand) (part : List Lexeme) : Prop where
  tokens : part.map (·.token) = o.expr.postorder
  span : o.span = hull part

/-- The operands on a stack, the latest first, are read from lexemes one after the other. -/
inductive Stacked : List Operand → List Lexeme → Prop
  | empty : Stacked [] []
  | push {o : Operand} {below : List Operand} {before part : List Lexeme} :
      Stacked below before → o.Covers part → Stacked (o :: below) (before ++ part)

section Covers

variable {o left right : Operand} {part a b ts before rest : List Lexeme}
  {stack final : List Operand}

theorem Operand.Covers.ne_nil (h : o.Covers part) : part ≠ [] := by
  intro hnil
  have htokens := h.tokens
  rw [hnil, List.map_nil] at htokens
  exact o.expr.postorder_ne_nil htokens.symm

theorem Operand.covers_leaf (c : Condition) (span : Span) :
    Operand.Covers ⟨.leaf c, span⟩ [⟨.condition c, span⟩] :=
  ⟨rfl, rfl⟩

/-- Two operands and the operator behind them. -/
theorem Operand.covers_binary (hleft : left.Covers a) (hright : right.Covers b) (op : Operator)
    (span : Span) :
    Operand.Covers ⟨.binary op left.expr right.expr, (left.span.merge right.span).merge span⟩
      (a ++ (b ++ [⟨.operator op, span⟩])) := by
  constructor
  · simp [hleft.tokens, hright.tokens, Expr.postorder]
  · have hone : hull [⟨.operator op, span⟩] = span := rfl
    rw [hull_append hleft.ne_nil (by simp), hull_append hright.ne_nil (by simp), hone, hleft.span,
      hright.span, Span.merge_assoc]

/-- The postorder of an expression puts it on the stack and uses up nothing that lies there. -/
theorem assemble_postorder (e : Expr) (hpart : part.map (·.token) = e.postorder)
    (stack : List Operand) (rest : List Lexeme) :
    assemble stack (part ++ rest) = assemble (⟨e, hull part⟩ :: stack) rest := by
  induction e generalizing part stack rest with
  | leaf c =>
      obtain ⟨⟨token, span⟩, rfl, htoken⟩ := List.map_eq_singleton_iff.mp hpart
      obtain rfl : token = .condition c := htoken
      rfl
  | binary op left right ihleft ihright =>
      rw [Expr.postorder] at hpart
      obtain ⟨a, later, rfl, ha, hlater⟩ := List.map_eq_append_iff.mp hpart
      obtain ⟨b, last, rfl, hb, hlast⟩ := List.map_eq_append_iff.mp hlater
      obtain ⟨⟨token, span⟩, rfl, htoken⟩ := List.map_eq_singleton_iff.mp hlast
      obtain rfl : token = .operator op := htoken
      -- both operands are on the stack when the operator is read
      have hleft : Operand.Covers ⟨left, hull a⟩ a := ⟨ha, rfl⟩
      have hright : Operand.Covers ⟨right, hull b⟩ b := ⟨hb, rfl⟩
      rw [List.append_assoc, ihleft ha, List.append_assoc, ihright hb,
        ← (Operand.covers_binary hleft hright op span).span]
      rfl

theorem Stacked.assemble (h : Stacked stack ts) : assemble [] ts = .ok stack := by
  induction h with
  | empty => rfl
  | @push o below before part _ hcovers ih =>
      have hpart := assemble_postorder o.expr hcovers.tokens below []
      rw [List.append_nil, ← hcovers.span] at hpart
      rw [assemble_append, ih]
      exact hpart

/-- What a stack is read from grows by the lexemes that are used up. -/
theorem Stacked.append (hstack : Stacked stack before) (h : Query.assemble stack rest = .ok final) :
    Stacked final (before ++ rest) := by
  induction rest generalizing stack before with
  | nil =>
      cases h
      rwa [List.append_nil]
  | cons l rest ih =>
      obtain ⟨token, span⟩ := l
      rcases assemble_step stack ⟨token, span⟩ rest with ⟨c, rfl, hstep⟩ |
        ⟨op, right, left, below, rfl, rfl, hstep⟩ | ⟨op, -, -, hstep⟩ | ⟨-, hstep⟩
      · rw [hstep] at h
        have hgrown := ih (hstack.push (Operand.covers_leaf c span)) h
        rwa [List.append_assoc] at hgrown
      · rw [hstep] at h
        -- the operator stands behind the parts of the two latest operands
        cases hstack with
        | push hupper hright =>
          cases hupper with
          | push hbelow hleft =>
            have hgrown := ih (hbelow.push (Operand.covers_binary hleft hright op span)) h
            simpa using hgrown
      · rw [hstep] at h
        cases h
      · rw [hstep] at h
        cases h

theorem assemble_eq_ok_iff : assemble [] ts = .ok stack ↔ Stacked stack ts :=
  ⟨fun h => Stacked.empty.append h, Stacked.assemble⟩

/-- A sequence is built into the expression that it is the postorder of. -/
theorem build_eq_ok_iff_postorder {e : Expr} :
    build ts = .ok e ↔ ts.map (·.token) = e.postorder := by
  rw [build_eq_ok_iff]
  constructor
  · rintro ⟨o, ho, rfl⟩
    cases assemble_eq_ok_iff.mp ho with
    | push hbelow hcovers =>
      cases hbelow with
      | empty => exact hcovers.tokens
  · intro h
    exact ⟨⟨e, hull ts⟩, assemble_eq_ok_iff.mpr (Stacked.empty.push ⟨h, rfl⟩), rfl⟩

end Covers

/-! ## Lexemes that cannot stand where they stand -/

/-- The number of operands that are complete behind a part of a sequence: every condition is one,
and every operator makes one of two. -/
def completeOperands (before : List Lexeme) : Nat :=
  before.countP Lexeme.isCondition - before.countP Lexeme.isOperator

/-- What is wrong with a lexeme behind a part of a sequence: it is a parenthesis, or an operator
with fewer than two operands before it. -/
def Lexeme.misplaced? (before : List Lexeme) (l : Lexeme) : Option Fault :=
  match l.token with
  | .condition _ => none
  | .operator op => if completeOperands before < 2 then some (.missingOperand op) else none
  | .leftParen | .rightParen => some (.strayParen l.token)

/-- Every lexeme can stand where it stands. -/
def AllPlaced (ts : List Lexeme) : Prop :=
  AtEvery (fun before l => l.misplaced? before = none) ts

section Misplaced

variable {ts before : List Lexeme} {stack : List Operand} {l : Lexeme}

theorem length_of_assemble (h : assemble [] before = .ok stack) :
    stack.length = completeOperands before := by
  -- the difference is not cut off: what is used up has no more operators than conditions
  have hcount := length_assemble h
  rw [List.length_nil] at hcount
  rw [completeOperands]
  omega

theorem Lexeme.misplaced?_of_isParen (h : l.isParen = true) :
    l.misplaced? before = some (.strayParen l.token) := by
  unfold Lexeme.misplaced?
  cases htoken : l.token with
  | leftParen => rfl
  | rightParen => rfl
  | operator op => simp [Lexeme.isParen, htoken] at h
  | condition c => simp [Lexeme.isParen, htoken] at h

/-- Behind lexemes that are used up one more is used up, unless it is misplaced. -/
theorem exists_assemble_concat (h : assemble [] before = .ok stack)
    (hplaced : l.misplaced? before = none) :
    ∃ final, assemble [] (before ++ [l]) = .ok final := by
  have hlength := length_of_assemble h
  rw [assemble_append, h]
  rcases assemble_step stack l [] with ⟨c, -, hstep⟩ | ⟨op, right, left, below, -, -, hstep⟩ |
    ⟨op, htoken, hfew, -⟩ | ⟨hparen, -⟩
  · exact ⟨_, hstep⟩
  · exact ⟨_, hstep⟩
  · have hcomplete : completeOperands before < 2 := hlength ▸ hfew
    simp [Lexeme.misplaced?, htoken, hcomplete] at hplaced
  · rw [Lexeme.misplaced?_of_isParen hparen] at hplaced
    cases hplaced

/-- Building fails at a misplaced lexeme, whatever stands behind it. -/
theorem assemble_of_misplaced (h : assemble [] before = .ok stack) {fault : Fault}
    (hmisplaced : l.misplaced? before = some fault) (after : List Lexeme) :
    assemble [] (before ++ l :: after) = .error ⟨fault, l.span⟩ := by
  have hlength := length_of_assemble h
  rw [assemble_append, h]
  rcases assemble_step stack l after with ⟨c, htoken, -⟩ |
    ⟨op, right, left, below, htoken, rfl, -⟩ | ⟨op, htoken, hfew, hstep⟩ | ⟨hparen, hstep⟩
  · simp [Lexeme.misplaced?, htoken] at hmisplaced
  · have hcomplete : ¬completeOperands before < 2 := by
      rw [← hlength]
      simp
    simp [Lexeme.misplaced?, htoken, hcomplete] at hmisplaced
  · have hcomplete : completeOperands before < 2 := hlength ▸ hfew
    obtain rfl : .missingOperand op = fault := by
      simpa [Lexeme.misplaced?, htoken, hcomplete] using hmisplaced
    exact hstep
  · rw [Lexeme.misplaced?_of_isParen hparen] at hmisplaced
    cases hmisplaced
    exact hstep

/-- The lexemes are all used up, or building fails at the first one that is misplaced. -/
theorem assemble_ends (ts : List Lexeme) :
    (AllPlaced ts ∧ ∃ stack, assemble [] ts = .ok stack) ∨
    ∃ before l after fault, ts = before ++ l :: after ∧ AllPlaced before ∧
      l.misplaced? before = some fault ∧ assemble [] ts = .error ⟨fault, l.span⟩ := by
  -- by induction on the last lexeme: what comes later does not change a failure
  induction ts using List.reverseRecOn with
  | nil => exact Or.inl ⟨fun before l after h => by simp at h, [], rfl⟩
  | append_singleton ts l ih =>
      rcases ih with ⟨hplaced, stack, hstack⟩ |
        ⟨before, k, after, fault, rfl, hplaced, hfault, hfails⟩
      · -- all lexemes before it are used up, and the last one decides
        cases hl : l.misplaced? ts with
        | none =>
            exact Or.inl ⟨atEvery_concat_iff.mpr ⟨hplaced, hl⟩, exists_assemble_concat hstack hl⟩
        | some fault =>
            exact Or.inr ⟨ts, l, [], fault, rfl, hplaced, hl, assemble_of_misplaced hstack hl []⟩
      · refine Or.inr ⟨before, k, after ++ [l], fault, by simp, hplaced, hfault, ?_⟩
        rw [assemble_append, hfails]
        rfl

end Misplaced

/-! ## Operands that nothing joins -/

section Leftover

variable {ts : List Lexeme} {stack : List Operand}

/-- The lexemes fall into the parts of the operands, from the earliest to the latest. -/
theorem Stacked.exists_parts (h : Stacked stack ts) :
    ∃ parts, ts = parts.flatten ∧ List.Forall₂ Operand.Covers stack.reverse parts := by
  induction h with
  | empty => exact ⟨[], rfl, .nil⟩
  | @push o below before part _ hcovers ih =>
      obtain ⟨parts, rfl, hparts⟩ := ih
      refine ⟨parts ++ [part], by simp, ?_⟩
      rw [List.reverse_cons]
      exact List.rel_append hparts (.cons hcovers .nil)

/-- Parts that are covered one by one are covered together. -/
theorem tokens_flatten_of_covers {operands : List Operand} {parts : List (List Lexeme)}
    (h : List.Forall₂ Operand.Covers operands parts) :
    parts.flatten.map (·.token) = (operands.map (·.expr)).flatMap Expr.postorder := by
  induction h with
  | nil => rfl
  | cons hcovers _ ih => simp [ih, hcovers.tokens]

/-- Postorders one after the other put their expressions on the stack. -/
theorem exists_assemble_of_postorders {es : List Expr}
    (h : ts.map (·.token) = es.flatMap Expr.postorder) (stack : List Operand) :
    ∃ latest, assemble stack ts = .ok (latest ++ stack) := by
  induction es generalizing ts stack with
  | nil =>
      obtain rfl : ts = [] := by simpa using h
      exact ⟨[], rfl⟩
  | cons e es ih =>
      rw [List.flatMap_cons] at h
      obtain ⟨part, rest, rfl, hpart, hrest⟩ := List.map_eq_append_iff.mp h
      obtain ⟨latest, hlatest⟩ := ih hrest (⟨e, hull part⟩ :: stack)
      refine ⟨latest ++ [⟨e, hull part⟩], ?_⟩
      rw [assemble_postorder e hpart, hlatest, List.append_assoc]
      rfl

end Leftover

/-! ## Sequences that are refused -/

section Refused

variable {ts before first second later : List Lexeme} {l : Lexeme}

theorem build_of_misplaced {fault : Fault} (hplaced : AllPlaced before)
    (hfault : l.misplaced? before = some fault) (after : List Lexeme) :
    build (before ++ l :: after) = .error ⟨fault, l.span⟩ := by
  -- nothing before it is misplaced, so that all of it is used up
  rcases assemble_ends before with ⟨-, stack, hstack⟩ |
    ⟨front, k, back, fault', rfl, -, hearlier, -⟩
  · rw [build, assemble_of_misplaced hstack hfault after]
    rfl
  · rw [hplaced front k back rfl] at hearlier
    cases hearlier

/-- Of operands that nothing joins the second one is at fault. -/
theorem build_of_leftover {e₁ e₂ : Expr} {es : List Expr}
    (hfirst : first.map (·.token) = e₁.postorder) (hsecond : second.map (·.token) = e₂.postorder)
    (hlater : later.map (·.token) = es.flatMap Expr.postorder) :
    build (first ++ (second ++ later)) = .error ⟨.missingOperator, hull second⟩ := by
  obtain ⟨latest, hlatest⟩ := exists_assemble_of_postorders hlater
    [⟨e₂, hull second⟩, ⟨e₁, hull first⟩]
  rw [build, assemble_postorder e₁ hfirst, assemble_postorder e₂ hsecond, hlatest]
  simp [bind, Except.bind]

theorem build_error_cases {failure : ParseError} (h : build ts = .error failure) :
    (∃ before l after fault, ts = before ++ l :: after ∧ AllPlaced before ∧
      l.misplaced? before = some fault ∧ failure = ⟨fault, l.span⟩) ∨
    (ts = [] ∧ failure = ⟨.emptyExpression, .origin⟩) ∨
    ∃ (first second later : List Lexeme) (e₁ e₂ : Expr) (es : List Expr),
      ts = first ++ (second ++ later) ∧ first.map (·.token) = e₁.postorder ∧
      second.map (·.token) = e₂.postorder ∧ later.map (·.token) = es.flatMap Expr.postorder ∧
      failure = ⟨.missingOperator, hull second⟩ := by
  rcases bind_eq_error_iff.mp h with hfails | ⟨stack, hstack, hrest⟩
  · rcases assemble_ends ts with ⟨-, stack, hstack⟩ |
      ⟨before, l, after, fault, hsplit, hplaced, hfault, hends⟩
    · rw [hstack] at hfails
      cases hfails
    · rw [hends] at hfails
      cases hfails
      exact Or.inl ⟨before, l, after, fault, hsplit, hplaced, hfault, rfl⟩
  · -- all lexemes are used up, and what is left is not one operand
    obtain ⟨parts, rfl, hparts⟩ := (assemble_eq_ok_iff.mp hstack).exists_parts
    split at hrest
    · next hempty =>
      cases hrest
      rw [hempty] at hparts
      cases hparts
      exact Or.inr (Or.inl ⟨rfl, rfl⟩)
    · cases hrest
    · next o stray others hreverse =>
      cases hrest
      rw [hreverse] at hparts
      obtain ⟨first, rest, hfirst, hrest, rfl⟩ := List.forall₂_cons_left_iff.mp hparts
      obtain ⟨second, later, hsecond, hlater, rfl⟩ := List.forall₂_cons_left_iff.mp hrest
      exact Or.inr (Or.inr ⟨first, second, later.flatten, o.expr, stray.expr, _, rfl,
        hfirst.tokens, hsecond.tokens, tokens_flatten_of_covers hlater, by rw [hsecond.span]⟩)

end Refused

/-- **Building is the inverse of writing in postorder.** A sequence is built into an expression
exactly if its tokens are the postorder of it, and the conditions are then those of the expression
in their order. Every other sequence fails: at the first lexeme that is misplaced; as empty if it
is; and otherwise at the second of the operands that nothing joins, whose span is merged from those
of all its lexemes. -/
theorem build_inverts_postorder (ts : List Lexeme) :
    (∀ e, build ts = .ok e ↔ ts.map (·.token) = e.postorder) ∧
    (∀ e, build ts = .ok e → e.conditions = ts.filterMap Lexeme.condition?) ∧
    ∀ failure, build ts = .error failure ↔
      (∃ before l after fault, ts = before ++ l :: after ∧ AllPlaced before ∧
        l.misplaced? before = some fault ∧ failure = ⟨fault, l.span⟩) ∨
      (ts = [] ∧ failure = ⟨.emptyExpression, .origin⟩) ∨
      ∃ (first second later : List Lexeme) (e₁ e₂ : Expr) (es : List Expr),
        ts = first ++ (second ++ later) ∧ first.map (·.token) = e₁.postorder ∧
        second.map (·.token) = e₂.postorder ∧ later.map (·.token) = es.flatMap Expr.postorder ∧
        failure = ⟨.missingOperator, hull second⟩ := by
  refine ⟨fun e => build_eq_ok_iff_postorder, fun e h => ?_, fun failure => ⟨build_error_cases, ?_⟩⟩
  · obtain ⟨o, ho, rfl⟩ := build_eq_ok_iff.mp h
    simpa [conditionsOf] using conditions_assemble ho
  · rintro (⟨before, l, after, fault, rfl, hplaced, hfault, rfl⟩ | ⟨rfl, rfl⟩ |
      ⟨first, second, later, e₁, e₂, es, rfl, hfirst, hsecond, hlater, rfl⟩)
    · exact build_of_misplaced hplaced hfault after
    · rfl
    · exact build_of_leftover hfirst hsecond hlater

/-- Two conditions and the operator behind them are built, with the conditions in their order. With
one more condition before them nothing joins the two operands, and the second one is at fault with
the span of all its lexemes. -/
theorem build_inverts_postorder_leftover :
    let a : Lexeme := ⟨.condition ⟨.pgc, "1"⟩, ⟨0, 5⟩⟩
    let b : Lexeme := ⟨.condition ⟨.name, "M33"⟩, ⟨6, 14⟩⟩
    let c : Lexeme := ⟨.condition ⟨.pgc, "2"⟩, ⟨18, 23⟩⟩
    let op : Lexeme := ⟨.operator .or, ⟨15, 17⟩⟩
    (∃ e, build [b, c, op] = .ok e ∧ e.conditions = [⟨.name, "M33"⟩, ⟨.pgc, "2"⟩]) ∧
      build [a, b, c, op] = .error ⟨.missingOperator, ⟨6, 23⟩⟩ := by
  intro a b c op
  have hok : build [b, c, op] =
      .ok (.binary .or (.leaf ⟨.name, "M33"⟩) (.leaf ⟨.pgc, "2"⟩)) :=
    ((build_inverts_postorder [b, c, op]).1 _).mpr rfl
  refine ⟨⟨_, hok, (build_inverts_postorder [b, c, op]).2.1 _ hok⟩, ?_⟩
  exact ((build_inverts_postorder [a, b, c, op]).2.2 _).mpr
    (Or.inr (Or.inr ⟨[a], [b, c, op], [], .leaf ⟨.pgc, "1"⟩,
      .binary .or (.leaf ⟨.name, "M33"⟩) (.leaf ⟨.pgc, "2"⟩), [], rfl, rfl, rfl, rfl, rfl⟩))

end SkyCatalog.Query
