import SkyCatalog.Proofs.Query.Lexemes
import SkyCatalog.Proofs.Query.Reordering

/-!
# Where an expression is refused

An error points into a text if its span covers at least one character of it. The spans that the
lexer finds do, reordering keeps the lexemes and their spans, and building merges them, so that
the operands on the stack cover parts of the text as well. Hence each of the three steps fails
with an error that points into the text (`pointsInto_of_tokenize`, `pointsInto_of_shunt`,
`assemble_within`). The exception is an expression without terms, which is at fault as a whole.
`parse_error_located` draws the consequences for the report on a refused expression.
-/

namespace SkyCatalog.Query

/-- The error is about a part of the text that is not empty. -/
def ParseError.PointsInto (cs : List Char) (e : ParseError) : Prop :=
  e.span.Within cs ∧ e.fault ≠ .emptyExpression

section Steps

variable {cs : List Char} {source : String} {e : ParseError}

/-! ## Reading lexemes -/

/-- The spans of a scan, and the one at which it fails, cover parts of the text. -/
theorem scan_within (source : String) :
    (∀ l ∈ (scan source).lexemes, l.span.Within source.toList) ∧
      ∀ e, (scan source).failure = some e → e.PointsInto source.toList := by
  refine ⟨fun l hl => (standsIn_of_mem_scan hl).within, fun e he => ?_⟩
  obtain ⟨found, limit, -, ⟨-, hscan⟩ | ⟨-, e', hscan, -, hwithin, hfault⟩⟩ := scan_cases source
  · rw [hscan] at he
    cases he
  · rw [hscan] at he
    cases he
    exact ⟨hwithin, hfault⟩

theorem within_of_tokenize {lexemes : List Lexeme} (h : tokenize source = .ok lexemes) :
    ∀ l ∈ lexemes, l.span.Within source.toList := by
  have hwithin := (scan_within source).1
  rwa [tokenize_eq_ok_iff.mp h] at hwithin

theorem pointsInto_of_tokenize (h : tokenize source = .error e) : e.PointsInto source.toList :=
  (scan_within source).2 e (tokenize_eq_error_iff.mp h)

/-! ## Reordering -/

/-- Reordering fails at a lexeme that is held or still to come. -/
theorem pointsInto_of_shunt {holding lexemes : List Lexeme}
    (hheld : ∀ l ∈ holding, l.span.Within cs) (hlexemes : ∀ l ∈ lexemes, l.span.Within cs)
    (h : shunt holding lexemes = .error e) : e.PointsInto cs := by
  induction lexemes generalizing holding with
  | nil =>
      obtain ⟨barrier, hbarrier, -, rfl⟩ := shunt_nil_error h
      exact ⟨hheld barrier hbarrier, Fault.noConfusion⟩
  | cons l rest ih =>
      obtain ⟨hl, hrest⟩ := List.forall_mem_cons.mp hlexemes
      rcases shunt_error_cases h with ⟨-, rfl⟩ | ⟨held, hsubset, hlater⟩
      · exact ⟨hl, Fault.noConfusion⟩
      · have hall : ∀ x ∈ l :: holding, x.span.Within cs := List.forall_mem_cons.mpr ⟨hl, hheld⟩
        exact ih (fun x hx => hall x (hsubset hx)) hrest hlater

theorem within_of_toPostfix {lexemes out : List Lexeme}
    (hlexemes : ∀ l ∈ lexemes, l.span.Within cs) (h : toPostfix lexemes = .ok out) :
    ∀ l ∈ out, l.span.Within cs := by
  exact fun l hl => hlexemes l (List.mem_of_mem_filter ((shunt_perm h).mem_iff.mp hl))

/-! ## Building -/

/-- The operands on the stack cover parts of the text, and building fails at a lexeme. -/
theorem assemble_within (stack : List Operand) {postfixOrder : List Lexeme}
    (hstack : ∀ o ∈ stack, o.span.Within cs) (hlexemes : ∀ l ∈ postfixOrder, l.span.Within cs) :
    (∀ final, assemble stack postfixOrder = .ok final → ∀ o ∈ final, o.span.Within cs) ∧
      ∀ e, assemble stack postfixOrder = .error e → e.PointsInto cs := by
  induction postfixOrder generalizing stack with
  | nil =>
      refine ⟨?_, ?_⟩
      · rintro final ⟨⟩
        exact hstack
      · rintro e ⟨⟩
  | cons l rest ih =>
      obtain ⟨hl, hrest⟩ := List.forall_mem_cons.mp hlexemes
      rcases assemble_step stack l rest with ⟨c, -, hstep⟩ |
        ⟨op, right, left, below, -, rfl, hstep⟩ | ⟨op, -, -, hstep⟩ | ⟨-, hstep⟩
      · rw [hstep]
        exact ih _ (List.forall_mem_cons.mpr ⟨hl, hstack⟩) hrest
      · obtain ⟨hright, hbelow⟩ := List.forall_mem_cons.mp hstack
        obtain ⟨hleft, hbelow⟩ := List.forall_mem_cons.mp hbelow
        have hmerged := (hleft.merge hright).merge hl
        rw [hstep]
        apply ih
        · exact List.forall_mem_cons.mpr ⟨hmerged, hbelow⟩
        · exact hrest
      · rw [hstep]
        refine ⟨?_, ?_⟩
        · rintro final ⟨⟩
        · rintro e ⟨⟩
          exact ⟨hl, Fault.noConfusion⟩
      · rw [hstep]
        refine ⟨?_, ?_⟩
        · rintro final ⟨⟩
        · rintro e ⟨⟩
          exact ⟨hl, Fault.noConfusion⟩

theorem build_error {postfixOrder : List Lexeme}
    (hlexemes : ∀ l ∈ postfixOrder, l.span.Within cs) (h : build postfixOrder = .error e) :
    e.PointsInto cs ∨ e = ⟨.emptyExpression, .origin⟩ := by
  obtain ⟨hfinal, hfails⟩ := assemble_within [] (by simp) hlexemes
  rcases bind_eq_error_iff.mp h with hassemble | ⟨final, hassemble, hrest⟩
  · exact Or.inl (hfails e hassemble)
  · -- of the operands that are left only the second one can be at fault
    split at hrest
    · cases hrest
      exact Or.inr rfl
    · cases hrest
    · next first stray later hstack =>
      cases hrest
      have hstray : stray ∈ final := List.mem_reverse.mp (by simp [hstack])
      exact Or.inl ⟨hfinal final hassemble stray hstray, Fault.noConfusion⟩

/-! ## The whole expression -/

/-- Whichever step fails, the error points into the text or is that there are no terms. -/
theorem parse_error (h : parse source = .error e) :
    e.PointsInto source.toList ∨ e = ⟨.emptyExpression, .origin⟩ := by
  rcases bind_eq_error_iff.mp h with hpostfix | ⟨out, hout, hbuild⟩
  · rcases bind_eq_error_iff.mp hpostfix with htokenize | ⟨lexemes, hlexemes, hshunt⟩
    · exact Or.inl (pointsInto_of_tokenize htokenize)
    · exact Or.inl (pointsInto_of_shunt (by simp) (within_of_tokenize hlexemes) hshunt)
  · obtain ⟨lexemes, hlexemes, hshunt⟩ := bind_eq_ok_iff.mp hout
    exact build_error (within_of_toPostfix (within_of_tokenize hlexemes) hshunt) hbuild

/-- **An error points into the text that is refused.** Its span cuts the text between characters
and covers at least one of them, unless there are no terms at all. The report marks just the
characters covered, or one column where there are none, with carets that reach at most one column
beyond the text. -/
theorem parse_error_located (h : parse source = .error e) :
    ∃ before text after, e.span.Cuts source.toList before text after ∧
      e.span.start ≤ e.span.stop ∧ e.span.stop ≤ source.utf8ByteSize ∧
      (e.fault = .emptyExpression → e.span = .origin) ∧
      (e.fault ≠ .emptyExpression → e.span.start < e.span.stop ∧ text ≠ []) ∧
      e.span.column source.toList = before.length + 1 ∧
      e.diagnostic.render source =
        "error: " ++ e.fault.message ++ "\n" ++
        "  " ++ source ++ "\n" ++
        "  " ++ String.ofList (List.replicate before.length ' ' ++
          List.replicate (max 1 text.length) '^') ++ "\n" ++
        "  column " ++ toString (before.length + 1) ++ "\n" ++
        (match e.fault.hint? with
          | some hint => "  hint: " ++ hint ++ "\n"
          | none => "") ∧
      before.length + max 1 text.length ≤ source.toList.length + 1 := by
  obtain ⟨before, text, after, hcuts, hempty, hfull⟩ : ∃ before text after,
      e.span.Cuts source.toList before text after ∧
      (e.fault = .emptyExpression → e.span = .origin) ∧
      (e.fault ≠ .emptyExpression → text ≠ []) := by
    rcases parse_error h with ⟨⟨before, text, after, hcuts, htext⟩, hfault⟩ | rfl
    · exact ⟨before, text, after, hcuts, fun hno => absurd hno hfault, fun _ => htext⟩
    · -- without terms the place in front of the text is at fault
      exact ⟨[], [], source.toList, ⟨rfl, rfl⟩, fun _ => rfl, fun hfault => absurd rfl hfault⟩
  refine ⟨before, text, after, hcuts, hcuts.start_le_stop, ?_, hempty,
    fun hfault => ⟨hcuts.start_lt_stop (hfull hfault), hfull hfault⟩, hcuts.column, ?_, ?_⟩
  · rw [← Text.byteLength_toList]
    exact hcuts.stop_le
  · exact Span.Cuts.render (d := e.diagnostic) hcuts
  · rw [hcuts.1, List.length_append, List.length_append]
    omega

/-- Nothing joins two terms. The second one is itself put together from two, and its span is merged
from theirs; both terms hold a character of two bytes. -/
theorem parse_error_located_merged_term :
    let source := "name:\u00e9 (pos:\u00e9 or pgc:2)"
    let e : ParseError := ⟨.missingOperator, ⟨9, 24⟩⟩
    parse source = .error e ∧ ∃ before text after,
      e.span.Cuts source.toList before text after ∧ text ≠ [] ∧
        before.length + max 1 text.length ≤ source.toList.length + 1 := by
  have h : parse "name:\u00e9 (pos:\u00e9 or pgc:2)" = .error ⟨.missingOperator, ⟨9, 24⟩⟩ := by
    decide +kernel
  obtain ⟨before, text, after, hcuts, -, -, -, hfull, -, -, hreach⟩ := parse_error_located h
  exact ⟨h, before, text, after, hcuts, (hfull Fault.noConfusion).2, hreach⟩

end Steps

end SkyCatalog.Query
