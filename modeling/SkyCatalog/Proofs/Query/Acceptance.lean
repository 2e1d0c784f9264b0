import Mathlib.Data.List.Chain
import SkyCatalog.Proofs.Except
import SkyCatalog.Proofs.Query.Parentheses

/-!
# Which expressions are accepted

No step looks at the grammar: reading relies on the parentheses and on the number of
operands. That is enough as long as no term stands directly after a term. Where two terms do
stand side by side, an operator from elsewhere may join them, and the expression is accepted
although it is no sentence (`juxtaposed_terms_accepted`). The sentences are exactly the
accepted expressions without such a place (`parse_separated_iff`).

The proof follows the places of a text from left to right: before a term or after one
(`Place`). Balanced lexemes without terms side by side have at most one condition more than
operators, and exactly one more only if at every place they go on as a sentence does
(`Continues`, `counted_of_separated`). Lexemes that do are those of a sentence
(`Continues.startsSentence`).
-/

namespace SkyCatalog.Query

/-- May a term end with this lexeme? -/
def Lexeme.endsTerm (l : Lexeme) : Bool :=
  match l.token with
  | .condition _ | .rightParen => true
  | .operator _ | .leftParen => false

/-- May a term start with this lexeme? -/
def Lexeme.startsTerm (l : Lexeme) : Bool :=
  match l.token with
  | .condition _ | .leftParen => true
  | .operator _ | .rightParen => false

/-- No term starts directly after one that ends. -/
def Separated (lexemes : List Lexeme) : Prop :=
  lexemes.IsChain fun a b => (a.endsTerm && b.startsTerm) = false

instance (lexemes : List Lexeme) : Decidable (Separated lexemes) :=
  inferInstanceAs (Decidable (lexemes.IsChain _))

/-- A place between two lexemes: a term is due, or a term has just ended. -/
inductive Place where
  | beforeTerm
  | afterTerm

/-- The number of terms that are due at a place. -/
def Place.due : Place → Nat
  | .beforeTerm => 1
  | .afterTerm => 0

/-- The lexemes go on as those of a sentence do at a place, `depth` parentheses being
open. -/
inductive Continues : Place → Nat → List Lexeme → Prop
  | condition {depth : Nat} {rest : List Lexeme} (c : Condition) (span : Span) :
      Continues .afterTerm depth rest →
        Continues .beforeTerm depth (⟨.condition c, span⟩ :: rest)
  | leftParen {depth : Nat} {rest : List Lexeme} (span : Span) :
      Continues .beforeTerm (depth + 1) rest →
        Continues .beforeTerm depth (⟨.leftParen, span⟩ :: rest)
  | operator {depth : Nat} {rest : List Lexeme} (op : Operator) (span : Span) :
      Continues .beforeTerm depth rest →
        Continues .afterTerm depth (⟨.operator op, span⟩ :: rest)
  | rightParen {depth : Nat} {rest : List Lexeme} (span : Span) :
      Continues .afterTerm depth rest →
        Continues .afterTerm (depth + 1) (⟨.rightParen, span⟩ :: rest)
  | done : Continues .afterTerm 0 []

/-! ## Counting conditions and operators -/

/-- There is at most one condition for every operator and every term that is due, and there
are as many as that only if the lexemes go on as those of a sentence do. -/
def Counted (place : Place) (depth : Nat) (lexemes : List Lexeme) : Prop :=
  lexemes.countP Lexeme.isCondition ≤ lexemes.countP Lexeme.isOperator + place.due ∧
    (lexemes.countP Lexeme.isCondition = lexemes.countP Lexeme.isOperator + place.due →
      Continues place depth lexemes)

section Counted

variable {depth : Nat} {rest : List Lexeme}

theorem Counted.condition (h : Counted .afterTerm depth rest) (c : Condition) (span : Span) :
    Counted .beforeTerm depth (⟨.condition c, span⟩ :: rest) := by
  obtain ⟨hle, heq⟩ := h
  have hcondition : Lexeme.isCondition ⟨.condition c, span⟩ = true := rfl
  have hoperator : ¬Lexeme.isOperator ⟨.condition c, span⟩ = true := Bool.false_ne_true
  rw [Counted, List.countP_cons_of_pos hcondition, List.countP_cons_of_neg hoperator]
  exact ⟨Nat.succ_le_succ hle, fun h => .condition c span (heq (Nat.succ.inj h))⟩

theorem Counted.leftParen (h : Counted .beforeTerm (depth + 1) rest) (span : Span) :
    Counted .beforeTerm depth (⟨.leftParen, span⟩ :: rest) := by
  obtain ⟨hle, heq⟩ := h
  have hcondition : ¬Lexeme.isCondition ⟨.leftParen, span⟩ = true := Bool.false_ne_true
  have hoperator : ¬Lexeme.isOperator ⟨.leftParen, span⟩ = true := Bool.false_ne_true
  rw [Counted, List.countP_cons_of_neg hcondition, List.countP_cons_of_neg hoperator]
  exact ⟨hle, fun h => .leftParen span (heq h)⟩

/-- An operator where a term is due is one condition too few for ever. -/
theorem Counted.operator (place : Place) (h : Counted .beforeTerm depth rest) (op : Operator)
    (span : Span) : Counted place depth (⟨.operator op, span⟩ :: rest) := by
  obtain ⟨hle, heq⟩ := h
  have hcondition : ¬Lexeme.isCondition ⟨.operator op, span⟩ = true := Bool.false_ne_true
  have hoperator : Lexeme.isOperator ⟨.operator op, span⟩ = true := rfl
  rw [Counted, List.countP_cons_of_neg hcondition, List.countP_cons_of_pos hoperator]
  simp only [Place.due] at hle heq
  cases place with
  | beforeTerm =>
      simp only [Place.due]
      exact ⟨by omega, fun h => by omega⟩
  | afterTerm => exact ⟨hle, fun h => .operator op span (heq h)⟩

/-- So is a closing parenthesis. -/
theorem Counted.rightParen (place : Place) (h : Counted .afterTerm depth rest) (span : Span) :
    Counted place (depth + 1) (⟨.rightParen, span⟩ :: rest) := by
  obtain ⟨hle, heq⟩ := h
  have hcondition : ¬Lexeme.isCondition ⟨.rightParen, span⟩ = true := Bool.false_ne_true
  have hoperator : ¬Lexeme.isOperator ⟨.rightParen, span⟩ = true := Bool.false_ne_true
  rw [Counted, List.countP_cons_of_neg hcondition, List.countP_cons_of_neg hoperator]
  simp only [Place.due] at hle heq
  cases place with
  | beforeTerm =>
      simp only [Place.due]
      exact ⟨by omega, fun h => by omega⟩
  | afterTerm => exact ⟨hle, fun h => .rightParen span (heq h)⟩

end Counted

/-- Balanced lexemes without terms side by side are counted as they should be. -/
theorem counted_of_separated {lexemes : List Lexeme} {depth : Nat} (place : Place)
    (hbalanced : Balanced depth lexemes) (hseparated : Separated lexemes)
    (hplace : ∀ l ∈ lexemes.head?, place = .afterTerm → l.startsTerm = false) :
    Counted place depth lexemes := by
  induction lexemes generalizing depth place with
  | nil =>
      obtain rfl : depth = 0 := hbalanced
      cases place with
      | beforeTerm => simp [Counted, Place.due]
      | afterTerm => exact ⟨Nat.zero_le _, fun _ => .done⟩
  | cons l rest ih =>
      obtain ⟨hnext, hrest⟩ := List.isChain_cons.mp hseparated
      have hafter : l.endsTerm = true →
          ∀ next ∈ rest.head?, Place.afterTerm = .afterTerm → next.startsTerm = false :=
        fun hl next hmem _ => by simpa [hl] using hnext next hmem
      -- a term starts only where one is due
      have hdue : l.startsTerm = true → place = .beforeTerm := fun hl => by
        cases place with
        | beforeTerm => rfl
        | afterTerm => exact absurd (hplace l rfl rfl) (by simp [hl])
      obtain ⟨token, span⟩ := l
      cases token with
      | condition c =>
          obtain rfl := hdue rfl
          exact (ih .afterTerm hbalanced hrest (hafter rfl)).condition c span
      | leftParen =>
          obtain rfl := hdue rfl
          exact (ih .beforeTerm hbalanced hrest (by simp)).leftParen span
      | operator op => exact (ih .beforeTerm hbalanced hrest (by simp)).operator place op span
      | rightParen =>
          obtain ⟨hopen, hclosed⟩ := hbalanced
          obtain ⟨outer, rfl⟩ : ∃ outer, depth = outer + 1 := ⟨depth - 1, by omega⟩
          exact (ih .afterTerm hclosed hrest (hafter rfl)).rightParen place span

/-! ## Lexemes that go on as a sentence does -/

/-- The innermost sentence has ended: the text is over, or its parenthesis is closed and is
the end of a term with which the sentence around it goes on. -/
def Closes : Nat → List Lexeme → Prop
  | 0, lexemes => lexemes = []
  | depth + 1, lexemes => ∃ closing rest, lexemes = ⟨.rightParen, closing⟩ :: rest ∧
      ∀ t : Term, ∃ (e : Sentence) (tail : List Lexeme),
        t.lexemes ++ rest = e.lexemes ++ tail ∧ Closes depth tail

/-- The lexemes start with a sentence, and the sentences around it go on behind it. -/
def StartsSentence (depth : Nat) (lexemes : List Lexeme) : Prop :=
  ∃ (e : Sentence) (tail : List Lexeme), lexemes = e.lexemes ++ tail ∧ Closes depth tail

/-- What stands where a term is due starts with a sentence; what stands after a term
completes the sentence that the term starts. -/
theorem Continues.startsSentence {place : Place} {depth : Nat} {lexemes : List Lexeme}
    (h : Continues place depth lexemes) :
    match place with
    | .beforeTerm => StartsSentence depth lexemes
    | .afterTerm => ∀ t : Term, StartsSentence depth (t.lexemes ++ lexemes) := by
  induction h with
  | condition c span _ ih => exact ih (.condition c span)
  | leftParen span _ ih =>
      obtain ⟨inner, tail, hinner, closing, later, rfl, houter⟩ := ih
      obtain ⟨e, tail, heq, hcloses⟩ := houter (.parens span inner closing)
      refine ⟨e, tail, ?_, hcloses⟩
      rw [hinner, ← heq]
      simp [Term.lexemes]
  | operator op span _ ih =>
      obtain ⟨e, tail, hrest, hcloses⟩ := ih
      exact fun t => ⟨.join t op span e, tail, by simp [Sentence.lexemes, hrest], hcloses⟩
  | rightParen span _ ih => exact fun t => ⟨.term t, _, rfl, span, _, rfl, ih⟩
  | done => exact fun t => ⟨.term t, [], rfl, rfl⟩

mutual

theorem Term.continues (t : Term) {depth : Nat} {rest : List Lexeme}
    (h : Continues .afterTerm depth rest) :
    Continues .beforeTerm depth (t.lexemes ++ rest) := by
  cases t with
  | condition c span => exact .condition c span h
  | parens opening inner closing =>
      have hinner := inner.continues (.rightParen closing h)
      simpa [Term.lexemes] using Continues.leftParen opening hinner

theorem Sentence.continues (e : Sentence) {depth : Nat} {rest : List Lexeme}
    (h : Continues .afterTerm depth rest) :
    Continues .beforeTerm depth (e.lexemes ++ rest) := by
  cases e with
  | term t => exact t.continues h
  | join t op span later =>
      have hlater := t.continues (.operator op span (later.continues h))
      simpa [Sentence.lexemes] using hlater

end

/-- Lexemes that go on as a sentence does have no terms side by side. -/
theorem Continues.separated {place : Place} {depth : Nat} {lexemes : List Lexeme}
    (h : Continues place depth lexemes) (previous : Lexeme)
    (hprevious : place = .beforeTerm → previous.endsTerm = false) :
    Separated (previous :: lexemes) := by
  induction h generalizing previous with
  | condition c span _ ih =>
      refine .cons_cons ?_ (ih _ (fun h => by cases h))
      simp [hprevious rfl]
  | leftParen span _ ih =>
      refine .cons_cons ?_ (ih _ (fun _ => rfl))
      simp [hprevious rfl]
  | operator op span _ ih => exact .cons_cons (Bool.and_false _) (ih _ (fun _ => rfl))
  | rightParen span _ ih => exact .cons_cons (Bool.and_false _) (ih _ (fun h => by cases h))
  | done => exact .singleton _

theorem Sentence.separated (e : Sentence) : Separated e.lexemes := by
  have hcontinues : Continues .beforeTerm 0 e.lexemes := by simpa using e.continues .done
  exact (hcontinues.separated ⟨.leftParen, .origin⟩ fun _ => rfl).tail

/-! ## Acceptance -/

/-- The lexemes of a sentence are read as one operand that holds its tree. -/
theorem Sentence.reads (e : Sentence) : ∃ o, Reads [] [] e.lexemes [o] ∧ o.expr = e.tree := by
  have henclosed : Enclosed [] := fun l hl => by cases hl
  obtain ⟨ops, operands, o, ho, hops, hrelease, hread⟩ := e.settles none none [] [] henclosed
  have hend : Reads (ops ++ []) operands [] [o] :=
    Reads.nil (by simpa using hops) (by simpa using hrelease)
  exact ⟨o, by simpa [held, lefts] using hread [] [o] hend, ho.trans e.groups.after_none⟩

/-- Lexemes without terms side by side that are read as one operand are those of a
sentence. -/
theorem exists_sentence_of_reads {lexemes : List Lexeme} {o : Operand}
    (hreads : Reads [] [] lexemes [o]) (hseparated : Separated lexemes) :
    ∃ e : Sentence, lexemes = e.lexemes := by
  obtain ⟨out, hout, hassemble⟩ := hreads
  have hcount := length_assemble hassemble
  rw [countP_shunt Lexeme.isCondition (fun l => Lexeme.not_isParen_of_isCondition) hout,
    countP_shunt Lexeme.isOperator (fun l => Lexeme.not_isParen_of_isOperator) hout] at hcount
  have hfull : lexemes.countP Lexeme.isCondition =
      lexemes.countP Lexeme.isOperator + Place.beforeTerm.due := by
    simp only [List.length_cons, List.length_nil, Place.due] at hcount ⊢
    omega
  obtain ⟨-, hcontinues⟩ :=
    counted_of_separated .beforeTerm (exists_shunt_iff.mp ⟨out, hout⟩) hseparated (by simp)
  obtain ⟨e, tail, heq, rfl⟩ := (hcontinues hfull).startsSentence
  exact ⟨e, by simpa using heq⟩

/-- **The sentences are the accepted expressions without terms side by side.** An expression
with no term directly after another is accepted exactly if its lexemes are those of a
sentence, and its tree is then that of the sentence. -/
theorem parse_separated_iff (source : String) (tree : Expr) :
    (parse source = .ok tree ∧
        ∃ lexemes, tokenize source = .ok lexemes ∧ Separated lexemes) ↔
      ∃ e : Sentence, tokenize source = .ok e.lexemes ∧ e.tree = tree := by
  constructor
  · rintro ⟨hparse, lexemes, hlexemes, hseparated⟩
    obtain ⟨read, o, hread, hreads, rfl⟩ := parse_eq_ok_iff.mp hparse
    cases hlexemes.symm.trans hread
    obtain ⟨e, rfl⟩ := exists_sentence_of_reads hreads hseparated
    refine ⟨e, hlexemes, ?_⟩
    -- a sentence is read in one way only
    obtain ⟨o', ⟨out', hout', hassemble'⟩, htree⟩ := e.reads
    obtain ⟨out, hout, hassemble⟩ := hreads
    cases hout.symm.trans hout'
    cases hassemble.symm.trans hassemble'
    exact htree.symm
  · rintro ⟨e, hlexemes, rfl⟩
    obtain ⟨o, hreads, htree⟩ := e.reads
    exact ⟨parse_eq_ok_iff.mpr ⟨e.lexemes, o, hlexemes, hreads, htree⟩, e.lexemes, hlexemes,
      e.separated⟩

/-- The grammar does not hold of all that is accepted: an operator behind two terms joins
them. -/
theorem juxtaposed_terms_accepted :
    parse "pgc:1 pgc:2 and " = .ok (.binary .and (.leaf ⟨.pgc, "1"⟩) (.leaf ⟨.pgc, "2"⟩)) ∧
      ¬∃ e : Sentence, tokenize "pgc:1 pgc:2 and " = .ok e.lexemes := by
  have hparse : (parse "pgc:1 pgc:2 and ").toOption =
      some (.binary .and (.leaf ⟨.pgc, "1"⟩) (.leaf ⟨.pgc, "2"⟩)) := by decide +kernel
  have htokenize : (tokenize "pgc:1 pgc:2 and ").toOption.all (fun l => ¬Separated l) = true := by
    decide +kernel
  refine ⟨toOption_eq_some_iff.mp hparse, fun ⟨e, he⟩ => ?_⟩
  simp [he, Except.toOption, e.separated] at htokenize

end SkyCatalog.Query
