import SkyCatalog.Proofs.Except
import SkyCatalog.Proofs.Query.Lexemes
import SkyCatalog.Proofs.Query.Reordering

/-!
# Writing an expression and reading it

An expression is read back from its written form exactly if no value in it holds a quote,
and every expression that is read is of this kind (`parse_text_inverse`). The written form
is scanned as the lexemes of one term that means the expression (`scanFrom_text`): each part
ends where a blank, a closing parenthesis or the end of the text stands, and there no lexeme
reaches further.
-/

namespace SkyCatalog.Query

/-- No value of the expression holds a quote. -/
def Expr.Quotable (e : Expr) : Prop :=
  ∀ c ∈ e.conditions, '"' ∉ c.value.toList

instance (e : Expr) : Decidable e.Quotable :=
  inferInstanceAs (Decidable (∀ c ∈ e.conditions, '"' ∉ c.value.toList))

theorem Expr.quotable_binary_iff {op : Operator} {left right : Expr} :
    (Expr.binary op left right).Quotable ↔ left.Quotable ∧ right.Quotable := by
  simp only [Expr.Quotable, Expr.conditions, List.forall_mem_append]

theorem Expr.toList_text_binary (op : Operator) (left right : Expr) :
    (Expr.binary op left right).text.toList =
      '(' :: (left.text.toList ++ ' ' ::
        (op.text.toList ++ ' ' :: (right.text.toList ++ [')']))) := by
  simp [Expr.text, String.toList_append]

/-! ## Scanning the written form -/

/-- A condition is spelled by its written form. -/
theorem spells_text {c : Condition} (hvalue : '"' ∉ c.value.toList) {tail : List Char}
    (htail : Delimited tail) : Spells (.condition c) c.text.toList tail := by
  obtain ⟨-, hspelled⟩ := valueAt?_eq_some_iff.mp (valueAt?_written hvalue htail)
  have hspells := Spells.condition c.criterion hspelled
  rwa [String.ofList_toList, ← toList_text] at hspells

theorem scanFrom_condition {c : Condition} (hvalue : '"' ∉ c.value.toList) (offset : Nat)
    {tail : List Char} (htail : Delimited tail) :
    ∃ span stop, scanFrom offset (c.text.toList ++ tail) =
      (scanFrom stop tail).prepend [⟨.condition c, span⟩] :=
  ⟨_, _, scanFrom_spells (spells_text hvalue htail) offset⟩

/-- The word of an operator in any case, between blanks. -/
theorem scanFrom_operator {op : Operator} {text : List Char}
    (hword : text.map Char.toLower = op.word) (offset : Nat) (tail : List Char) :
    ∃ span stop, scanFrom offset (' ' :: (text ++ ' ' :: tail)) =
      (scanFrom stop tail).prepend [⟨.operator op, span⟩] := by
  have hblank : isGap ' ' = true := rfl
  have hspells : Spells (.operator op) text (' ' :: tail) := .operator tail hword rfl
  have hscan := scanFrom_spells hspells (offset + ' '.utf8Size)
  rw [scanFrom_gap _ hblank] at hscan
  exact ⟨_, _, (scanFrom_gap offset hblank _).trans hscan⟩

theorem scanFrom_leftParen (offset : Nat) (tail : List Char) :
    ∃ span stop, scanFrom offset ('(' :: tail) =
      (scanFrom stop tail).prepend [⟨.leftParen, span⟩] :=
  ⟨_, _, scanFrom_spells (.leftParen tail) offset⟩

theorem scanFrom_rightParen (offset : Nat) (tail : List Char) :
    ∃ span stop, scanFrom offset (')' :: tail) =
      (scanFrom stop tail).prepend [⟨.rightParen, span⟩] :=
  ⟨_, _, scanFrom_spells (.rightParen tail) offset⟩

/-- The written form is scanned as the lexemes of a term that means the expression. -/
theorem scanFrom_text {e : Expr} (he : e.Quotable) (offset : Nat) {tail : List Char}
    (htail : Delimited tail) :
    ∃ (t : Term) (stop : Nat), t.tree = e ∧
      scanFrom offset (e.text.toList ++ tail) = (scanFrom stop tail).prepend t.lexemes := by
  induction e generalizing offset tail with
  | leaf c =>
      obtain ⟨span, stop, hscan⟩ := scanFrom_condition (he c List.mem_cons_self) offset htail
      exact ⟨.condition c span, stop, rfl, hscan⟩
  | binary op left right ihleft ihright =>
      obtain ⟨hleft, hright⟩ := Expr.quotable_binary_iff.mp he
      have htext : (Expr.binary op left right).text.toList ++ tail =
          '(' :: (left.text.toList ++ ' ' ::
            (op.text.toList ++ ' ' :: (right.text.toList ++ ')' :: tail))) := by
        simp [Expr.toList_text_binary]
      have hword : op.text.toList.map Char.toLower = op.word := by cases op <;> rfl
      -- the parts of the text from left to right
      obtain ⟨opening, start, hopen⟩ := scanFrom_leftParen offset (left.text.toList ++ ' ' ::
        (op.text.toList ++ ' ' :: (right.text.toList ++ ')' :: tail)))
      obtain ⟨tleft, stopLeft, htreeLeft, hscanLeft⟩ :=
        ihleft hleft start (delimited_cons (c := ' ') rfl _)
      obtain ⟨spanOp, stopOp, hscanOp⟩ :=
        scanFrom_operator hword stopLeft (right.text.toList ++ ')' :: tail)
      obtain ⟨tright, stopRight, htreeRight, hscanRight⟩ :=
        ihright hright stopOp (delimited_cons (c := ')') rfl _)
      obtain ⟨closing, stop, hclose⟩ := scanFrom_rightParen stopRight tail
      refine ⟨.parens opening (.join tleft op spanOp (.term tright)) closing, stop, ?_, ?_⟩
      · subst htreeLeft htreeRight
        cases op <;> rfl
      · rw [htext, hopen, hscanLeft, hscanOp, hscanRight, hclose]
        simp [Term.lexemes, Sentence.lexemes]

/-! ## Both directions -/

theorem parse_text_of_quotable {e : Expr} (he : e.Quotable) : parse e.text = .ok e := by
  have hend : Delimited [] := fun c hc => by cases hc
  obtain ⟨t, stop, htree, hscan⟩ := scanFrom_text he 0 hend
  rw [List.append_nil, scanFrom_nil] at hscan
  have htokens : tokenize e.text = .ok t.lexemes := by
    simp [tokenize, scan, hscan, Scan.prepend]
  obtain ⟨o, ho, hread⟩ := t.settles [] []
  have hreads : Reads [] [] (t.lexemes ++ []) [o] :=
    hread [] [o] (Reads.nil (fun l hl => by cases hl) rfl)
  rw [List.append_nil] at hreads
  exact parse_eq_ok_iff.mpr ⟨t.lexemes, o, htokens, hreads, ho.trans htree⟩

/-- An expression that is read holds no quote in its values. -/
theorem quotable_of_parse {source : String} {e : Expr} (h : parse source = .ok e) :
    e.Quotable := by
  obtain ⟨lexemes, o, htokens, ⟨out, hout, hassemble⟩, rfl⟩ := parse_eq_ok_iff.mp h
  have hconditions : o.expr.conditions = out.filterMap Lexeme.condition? := by
    simpa [conditionsOf] using conditions_assemble hassemble
  intro c hc
  rw [hconditions] at hc
  obtain ⟨l, hl, hcondition⟩ := List.mem_filterMap.mp hc
  -- reordering brings in no lexeme that was not scanned
  have hscanned : l ∈ (scan source).lexemes := by
    rw [tokenize_eq_ok_iff.mp htokens]
    exact List.mem_of_mem_filter ((shunt_perm hout).mem_iff.mp hl)
  obtain ⟨token, span⟩ := l
  have htoken : token = .condition c := by
    unfold Lexeme.condition? at hcondition
    split at hcondition
    · next htoken =>
      cases hcondition
      exact htoken
    · cases hcondition
  subst htoken
  obtain ⟨_, _, _, -, hspells⟩ := standsIn_of_mem_scan hscanned
  exact hspells.notMem_quote

/-- **Writing and reading are inverse.** An expression of any shape is read back from its
written form exactly if no value in it holds a quote. Every expression that is read is of
this kind, and so it is read back from what it is written as. -/
theorem parse_text_inverse :
    (∀ e : Expr, parse e.text = .ok e ↔ e.Quotable) ∧
      ∀ (source : String) (e : Expr), parse source = .ok e →
        e.Quotable ∧ parse e.text = .ok e :=
  ⟨fun _ => ⟨quotable_of_parse, parse_text_of_quotable⟩,
    fun _ _ h => ⟨quotable_of_parse h, parse_text_of_quotable (quotable_of_parse h)⟩⟩

/-- Values that are empty, blank in the wide sense, or hold a parenthesis and a colon are
written with quotes and read back. -/
theorem parse_text_inverse_awkward_values :
    ∃ e : Expr, parse "name:\"a (b:\" or name:\"\" and pos:\"\u2003\"" = .ok e ∧
      e.conditions.map (·.value) = ["a (b:", "", "\u2003"] ∧ parse e.text = .ok e := by
  have hvalues : (parse "name:\"a (b:\" or name:\"\" and pos:\"\u2003\"").toOption.map
      (fun e => e.conditions.map (·.value)) = some ["a (b:", "", "\u2003"] := by
    decide +kernel
  obtain ⟨e, he, hconditions⟩ := Option.map_eq_some_iff.mp hvalues
  have hparse := toOption_eq_some_iff.mp he
  exact ⟨e, hparse, hconditions, (parse_text_inverse.2 _ e hparse).2⟩

end SkyCatalog.Query
