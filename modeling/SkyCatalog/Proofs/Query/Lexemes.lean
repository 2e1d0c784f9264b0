import SkyCatalog.Proofs.Query.Scanning
import SkyCatalog.Proofs.Query.Spans

/-!
# What a scan accepts

`Spells` says how a token may be written and what may follow it, apart from any reading. The
reader at the front of a text finds a lexeme exactly where one is spelled (`front?_spells_iff`).

A scan reads lexemes that lie in the text one behind the other, with nothing but gaps before and
between them (`Laid`). Lexemes that lie so are the ones that are read (`scanFrom_of_laid`), and
they can be laid out up to the end of the text or up to a place where no lexeme starts
(`exists_laid`), so that a scan ends in one of these two ways (`scan_cases`). The main statement is
`tokenize_exact`.
-/

namespace SkyCatalog.Query

/-! ## Spelling -/

/-- A value, the text it is written as and what follows. -/
inductive SpellsValue : List Char → List Char → List Char → Prop where
  | quoted {value : List Char} (after : List Char) (noQuote : '"' ∉ value) :
      SpellsValue value ('"' :: (value ++ ['"'])) after
  | bare {value after : List Char} (nonempty : value ≠ []) (bare : ∀ c ∈ value, isBare c = true)
      (longest : Delimited after) : SpellsValue value value after

/-- A token, the text it is written as and what follows. -/
inductive Spells : Token → List Char → List Char → Prop where
  | leftParen (after : List Char) : Spells .leftParen ['('] after
  | rightParen (after : List Char) : Spells .rightParen [')'] after
  /-- The word of an operator in any case, with a blank behind it. -/
  | operator {op : Operator} {text : List Char} {blank : Char} (after : List Char)
      (word : text.map Char.toLower = op.word) (isBlank : Text.isBlank blank = true) :
      Spells (.operator op) text (blank :: after)
  | condition {value text after : List Char} (criterion : Criterion)
      (spelled : SpellsValue value text after) :
      Spells (.condition ⟨criterion, String.ofList value⟩) (criterion.opening ++ text) after

section Spelling

variable {cs text after : List Char} {token : Token}

theorem wordAt?_eq_some_iff {word : List Char} {r : Reading Unit} :
    wordAt? word cs = some r ↔ cs = r.text ++ r.rest ∧ r.text.map Char.toLower = word := by
  obtain ⟨text, ⟨⟩, rest⟩ := r
  simp only [wordAt?]
  constructor
  · intro h
    split at h
    · next hword =>
      cases h
      exact ⟨(List.take_append_drop _ _).symm, hword⟩
    · cases h
  · rintro ⟨rfl, rfl⟩
    rw [List.length_map, List.take_left, List.drop_left, if_pos rfl]

theorem operatorAt?_eq_some_iff {r : Reading Operator} :
    operatorAt? cs = some r ↔ cs = r.text ++ r.rest ∧ r.text.map Char.toLower = r.meaning.word := by
  obtain ⟨text, op, rest⟩ := r
  unfold operatorAt?
  constructor
  · intro h
    split at h
    · next hand =>
      cases h
      exact wordAt?_eq_some_iff.mp hand
    · obtain ⟨r, hor, hr⟩ := Option.map_eq_some_iff.mp h
      cases hr
      exact wordAt?_eq_some_iff.mp hor
  · rintro ⟨rfl, hword⟩
    cases op with
    | and =>
        have hand : wordAt? Operator.and.word (text ++ rest) = some ⟨text, (), rest⟩ :=
          wordAt?_eq_some_iff.mpr ⟨rfl, hword⟩
        rw [hand]
    | or =>
        have hor : wordAt? Operator.or.word (text ++ rest) = some ⟨text, (), rest⟩ :=
          wordAt?_eq_some_iff.mpr ⟨rfl, hword⟩
        -- the first letter tells the operators apart
        have hand : wordAt? Operator.and.word (text ++ rest) = none := by
          obtain ⟨c, tail, rfl, hc, -⟩ := List.map_eq_cons_iff.mp hword
          have hne : ¬c.toLower = 'a' := by rw [hc]; decide
          simp [wordAt?, Operator.word, hne]
        rw [hand, hor]
        rfl

theorem valueAt?_eq_some_iff {value : List Char} :
    valueAt? cs = some ⟨text, value, after⟩ ↔
      cs = text ++ after ∧ SpellsValue value text after := by
  constructor
  · intro h
    refine ⟨(valueAt?_split h).symm, ?_⟩
    have hquote := notMem_quote_of_valueAt? h
    unfold valueAt? at h
    split at h
    · next rest =>
      simp only at h
      split at h
      · cases h
      · next close after' hclose =>
        have hstop := List.head?_dropWhile_not (· ≠ '"') rest
        rw [hclose] at hstop
        obtain rfl : close = '"' := by simpa using hstop
        cases h
        exact .quoted _ hquote
    · simp only at h
      split at h
      · cases h
      · next hempty =>
        cases h
        refine .bare (by simpa using hempty) (fun c hc => List.mem_takeWhile_imp hc) ?_
        intro c hc
        have hstop := List.head?_dropWhile_not isBare cs
        rw [Option.mem_def.mp hc] at hstop
        simpa using hstop
  · rintro ⟨rfl, hspelled⟩
    cases hspelled with
    | quoted _ noQuote => simpa using valueAt?_quoted noQuote after
    | bare nonempty bare longest => exact valueAt?_bare nonempty bare longest

theorem spacingFault?_operator_eq_none_iff {op : Operator} :
    spacingFault? (.operator op) after = none ↔
      ∃ blank rest, after = blank :: rest ∧ Text.isBlank blank = true := by
  cases after with
  | nil => simp [spacingFault?]
  | cons blank rest =>
      simp only [spacingFault?, List.head?_cons, Option.map_some, Option.getD_some]
      by_cases hblank : Text.isBlank blank = true <;> simp [hblank]

theorem front?_of_operatorAt? {r : Reading Operator} (h : operatorAt? cs = some r) :
    front? cs = some ⟨r.text, .operator r.meaning, r.rest⟩ := by
  unfold front?
  split
  · cases h
  · cases h
  · rw [h]

/-- **The reader and the spelling.** What is read at the front of a text, an operator only if a
blank follows it, is what is spelled there. -/
theorem front?_spells_iff :
    front? cs = some ⟨text, token, after⟩ ∧ spacingFault? token after = none ↔
      cs = text ++ after ∧ Spells token text after := by
  constructor
  · rintro ⟨h, hspacing⟩
    refine ⟨(front?_split h).1.symm, ?_⟩
    unfold front? at h
    split at h
    · cases h
      exact .leftParen _
    · cases h
      exact .rightParen _
    · split at h
      · next hop =>
        cases h
        obtain ⟨blank, rest, hafter, hblank⟩ := spacingFault?_operator_eq_none_iff.mp hspacing
        exact hafter ▸ .operator rest (operatorAt?_eq_some_iff.mp hop).2 hblank
      · obtain ⟨r, hcondition, hr⟩ := Option.map_eq_some_iff.mp h
        cases hr
        unfold conditionAt? at hcondition
        split at hcondition
        · cases hcondition
        · obtain ⟨v, hv, rfl⟩ := Option.map_eq_some_iff.mp hcondition
          exact .condition _ (valueAt?_eq_some_iff.mp hv).2
  · rintro ⟨rfl, hspells⟩
    cases hspells with
    | leftParen => exact ⟨rfl, rfl⟩
    | rightParen => exact ⟨rfl, rfl⟩
    | @operator op text blank rest word isBlank =>
        have hop : operatorAt? (text ++ blank :: rest) = some ⟨text, op, blank :: rest⟩ :=
          operatorAt?_eq_some_iff.mpr ⟨rfl, word⟩
        exact ⟨front?_of_operatorAt? hop,
          spacingFault?_operator_eq_none_iff.mpr ⟨blank, rest, rfl, isBlank⟩⟩
    | condition criterion spelled =>
        refine ⟨?_, rfl⟩
        rw [List.append_assoc, front?_opening, valueAt?_eq_some_iff.mpr ⟨rfl, spelled⟩]
        rfl

/-- Gaps have no case. -/
theorem toLower_of_isGap {c : Char} (h : isGap c = true) : c.toLower = c := by
  simp only [isGap, Bool.or_eq_true, beq_iff_eq] at h
  rcases h with ((rfl | rfl) | rfl) | rfl <;> rfl

/-- A lexeme is not empty and does not start with a gap. -/
theorem Spells.exists_cons (h : Spells token text after) :
    ∃ c rest, text = c :: rest ∧ isGap c = false := by
  cases h with
  | leftParen => exact ⟨'(', [], rfl, rfl⟩
  | rightParen => exact ⟨')', [], rfl, rfl⟩
  | @operator op _ _ _ word =>
      obtain ⟨c, rest, rfl, hletter⟩ :
          ∃ c rest, text = c :: rest ∧ (c.toLower = 'a' ∨ c.toLower = 'o') := by
        cases op with
        | and =>
            obtain ⟨c, rest, rfl, hc, -⟩ := List.map_eq_cons_iff.mp word
            exact ⟨c, rest, rfl, Or.inl hc⟩
        | or =>
            obtain ⟨c, rest, rfl, hc, -⟩ := List.map_eq_cons_iff.mp word
            exact ⟨c, rest, rfl, Or.inr hc⟩
      refine ⟨c, rest, rfl, Bool.eq_false_iff.mpr fun hgap => ?_⟩
      rw [toLower_of_isGap hgap] at hletter
      rcases hletter with rfl | rfl <;> cases hgap
  | @condition _ text _ criterion _ =>
      cases criterion with
      | name => exact ⟨'n', _, rfl, rfl⟩
      | pos => exact ⟨'p', _, rfl, rfl⟩
      | pgc => exact ⟨'p', _, rfl, rfl⟩

theorem Spells.ne_nil (h : Spells token text after) : text ≠ [] := by
  obtain ⟨c, rest, rfl, -⟩ := h.exists_cons
  exact List.cons_ne_nil c rest

/-- No value that is spelled holds a quote. -/
theorem Spells.notMem_quote {c : Condition} (h : Spells (.condition c) text after) :
    '"' ∉ c.value.toList := by
  cases h with
  | condition criterion spelled =>
      rw [String.toList_ofList]
      cases spelled with
      | quoted _ noQuote => exact noQuote
      | bare _ bare _ =>
          intro hmem
          have hbare := bare _ hmem
          cases hbare

end Spelling

/-! ## Lexemes in a text -/

/-- There are only gaps between two offsets of a text. -/
def GapBetween (cs : List Char) (start stop : Nat) : Prop :=
  ∃ before gap after, Span.Cuts ⟨start, stop⟩ cs before gap after ∧ ∀ c ∈ gap, isGap c = true

/-- The token is spelled where the span of the lexeme says. -/
def Lexeme.StandsIn (cs : List Char) (l : Lexeme) : Prop :=
  ∃ before text after, l.span.Cuts cs before text after ∧ Spells l.token text after

/-- From an offset on the lexemes stand in a text one behind the other up to a limit, with
nothing but gaps before, between and behind them. -/
def Laid (cs : List Char) (limit : Nat) : Nat → List Lexeme → Prop
  | offset, [] => GapBetween cs offset limit
  | offset, l :: later =>
      GapBetween cs offset l.span.start ∧ l.StandsIn cs ∧ Laid cs limit l.span.stop later

/-- No lexeme starts at an offset, though a text neither ends nor has a gap there. -/
def Stuck (cs : List Char) (offset : Nat) : Prop :=
  ∃ before c rest, cs = before ++ c :: rest ∧ offset = Text.byteLength before ∧
    isGap c = false ∧ ∀ token text after, c :: rest = text ++ after → ¬Spells token text after

section Laid

variable {before rest : List Char} {limit : Nat} {lexemes : List Lexeme}

theorem gapBetween_iff {stop : Nat} :
    GapBetween (before ++ rest) (Text.byteLength before) stop ↔
      ∃ gap after, rest = gap ++ after ∧ stop = Text.byteLength (before ++ gap) ∧
        ∀ c ∈ gap, isGap c = true := by
  constructor
  · rintro ⟨before', gap, after, ⟨hcut, hspan⟩, hgap⟩
    obtain ⟨hstart, rfl⟩ := Span.mk.inj hspan
    obtain ⟨rfl, rfl⟩ := Text.append_inj_of_byteLength hcut hstart
    exact ⟨gap, after, rfl, (Text.byteLength_append _ _).symm, hgap⟩
  · rintro ⟨gap, after, rfl, rfl, hgap⟩
    exact ⟨before, gap, after, ⟨rfl, by rw [Text.byteLength_append]⟩, hgap⟩

theorem standsIn_iff {l : Lexeme} :
    l.StandsIn (before ++ rest) ∧ l.span.start = Text.byteLength before ↔
      ∃ text after, rest = text ++ after ∧
        l.span = ⟨Text.byteLength before, Text.byteLength (before ++ text)⟩ ∧
        Spells l.token text after := by
  constructor
  · rintro ⟨⟨before', text, after, ⟨hcut, hspan⟩, hspells⟩, hstart⟩
    rw [hspan] at hstart
    obtain ⟨rfl, rfl⟩ := Text.append_inj_of_byteLength hcut hstart.symm
    exact ⟨text, after, rfl, by rw [hspan, Text.byteLength_append], hspells⟩
  · rintro ⟨text, after, rfl, hspan, hspells⟩
    rw [Text.byteLength_append] at hspan
    exact ⟨⟨before, text, after, ⟨rfl, hspan⟩, hspells⟩, by rw [hspan]⟩

theorem Lexeme.StandsIn.within {cs : List Char} {l : Lexeme} (h : l.StandsIn cs) :
    l.span.Within cs := by
  obtain ⟨before, text, after, hcuts, hspells⟩ := h
  exact ⟨before, text, after, hcuts, hspells.ne_nil⟩

/-- Where the lexemes stand one behind the other. -/
theorem Laid.standsIn {cs : List Char} {offset : Nat} (h : Laid cs limit offset lexemes) :
    ∀ l ∈ lexemes, offset ≤ l.span.start ∧ l.StandsIn cs := by
  induction lexemes generalizing offset with
  | nil => simp
  | cons first later ih =>
      obtain ⟨⟨before, gap, after, hgap, -⟩, hfirst, hlater⟩ := h
      have hstart : offset ≤ first.span.start := hgap.start_le_stop
      have hstop := (Span.within_iff.mp hfirst.within).2.2
      intro l hl
      rcases List.mem_cons.mp hl with rfl | hl
      · exact ⟨hstart, hfirst⟩
      · obtain ⟨hle, hstands⟩ := ih hlater l hl
        exact ⟨by omega, hstands⟩

theorem Laid.pairwise {cs : List Char} {offset : Nat} (h : Laid cs limit offset lexemes) :
    lexemes.Pairwise fun a b => a.span.stop ≤ b.span.start := by
  induction lexemes generalizing offset with
  | nil => exact .nil
  | cons first later ih =>
      obtain ⟨-, -, hlater⟩ := h
      exact .cons (fun l hl => (hlater.standsIn l hl).1) (ih hlater)

/-! ## Scanning what is laid out -/

theorem scanFrom_gaps {gap : List Char} (h : ∀ c ∈ gap, isGap c = true) (offset : Nat)
    (rest : List Char) :
    scanFrom offset (gap ++ rest) = scanFrom (offset + Text.byteLength gap) rest := by
  induction gap generalizing offset with
  | nil => rfl
  | cons c gap ih =>
      obtain ⟨hc, hgap⟩ := List.forall_mem_cons.mp h
      rw [List.cons_append, scanFrom_gap offset hc, ih hgap, Text.byteLength, Nat.add_assoc]

theorem scanFrom_spells {token : Token} {text after : List Char}
    (h : Spells token text after) (offset : Nat) :
    scanFrom offset (text ++ after) = (scanFrom (offset + Text.byteLength text) after).prepend
      [⟨token, ⟨offset, offset + Text.byteLength text⟩⟩] := by
  obtain ⟨hfront, hspacing⟩ := front?_spells_iff.mpr ⟨rfl, h⟩
  obtain ⟨c, rest, rfl, hgap⟩ := h.exists_cons
  exact scanFrom_front offset hgap hfront hspacing

/-- Lexemes that are laid out are read, and the scan goes on at the limit. -/
theorem scanFrom_of_laid (before rest : List Char)
    (h : Laid (before ++ rest) limit (Text.byteLength before) lexemes) : ∃ front back,
      before ++ rest = front ++ back ∧ limit = Text.byteLength front ∧
      scanFrom (Text.byteLength before) rest = (scanFrom limit back).prepend lexemes := by
  -- by induction on the lexemes: what is passed grows by a gap and a lexeme
  induction lexemes generalizing before rest with
  | nil =>
      obtain ⟨gap, after, rfl, rfl, hgap⟩ := gapBetween_iff.mp h
      refine ⟨before ++ gap, after, (List.append_assoc _ _ _).symm, rfl, ?_⟩
      rw [scanFrom_gaps hgap, Text.byteLength_append]
      rfl
  | cons l later ih =>
      obtain ⟨hbetween, hstands, hlater⟩ := h
      obtain ⟨gap, after, rfl, hstart, hgap⟩ := gapBetween_iff.mp hbetween
      rw [← List.append_assoc] at hstands hlater ⊢
      obtain ⟨text, after, rfl, hspan, hspells⟩ := standsIn_iff.mp ⟨hstands, hstart⟩
      rw [← List.append_assoc, hspan] at hlater
      obtain ⟨front, back, hsplit, hlimit, hscan⟩ := ih _ after hlater
      obtain ⟨token, span⟩ := l
      obtain rfl : span = _ := hspan
      refine ⟨front, back, by simpa using hsplit, hlimit, ?_⟩
      rw [scanFrom_gaps hgap, ← Text.byteLength_append, scanFrom_spells hspells,
        ← Text.byteLength_append, hscan, Scan.prepend_prepend]
      rfl

/-- The gap before the first lexeme may start one character earlier. -/
theorem Laid.gap {c : Char} (hc : isGap c = true)
    (h : Laid (before ++ c :: rest) limit (Text.byteLength (before ++ [c])) lexemes) :
    Laid (before ++ c :: rest) limit (Text.byteLength before) lexemes := by
  have hextend : ∀ stop, GapBetween (before ++ c :: rest) (Text.byteLength (before ++ [c])) stop →
      GapBetween (before ++ c :: rest) (Text.byteLength before) stop := by
    intro stop hbetween
    rw [List.append_cons] at hbetween
    obtain ⟨gap, after, rfl, rfl, hgap⟩ := gapBetween_iff.mp hbetween
    refine gapBetween_iff.mpr ⟨c :: gap, after, rfl, by rw [List.append_assoc]; rfl, ?_⟩
    exact List.forall_mem_cons.mpr ⟨hc, hgap⟩
  cases lexemes with
  | nil => exact hextend _ h
  | cons l later => exact ⟨hextend _ h.1, h.2⟩

/-- Lexemes can be laid out up to the end of a text or to a place where none starts. -/
theorem exists_laid (before rest : List Char) : ∃ lexemes limit,
    Laid (before ++ rest) limit (Text.byteLength before) lexemes ∧
      (limit = Text.byteLength (before ++ rest) ∨ Stuck (before ++ rest) limit) := by
  -- by induction on what is left of the text
  induction hlength : rest.length using Nat.strong_induction_on generalizing before rest with
  | h n ih =>
    subst hlength
    have hnone : GapBetween (before ++ rest) (Text.byteLength before) (Text.byteLength before) :=
      gapBetween_iff.mpr ⟨[], rest, rfl, by rw [List.append_nil], by simp⟩
    cases rest with
    | nil => exact ⟨[], _, hnone, Or.inl (by rw [List.append_nil])⟩
    | cons c tail =>
      by_cases hc : isGap c = true
      · obtain ⟨lexemes, limit, hlaid, hlimit⟩ := ih _ (by simp) (before ++ [c]) tail rfl
        rw [← List.append_cons] at hlaid hlimit
        exact ⟨lexemes, limit, hlaid.gap hc, hlimit⟩
      · by_cases hspelled : ∃ token text after, c :: tail = text ++ after ∧ Spells token text after
        · obtain ⟨token, text, after, hsplit, hspells⟩ := hspelled
          have hshorter : after.length < (c :: tail).length := by
            have hpos := List.length_pos_iff.mpr hspells.ne_nil
            rw [hsplit, List.length_append]
            omega
          obtain ⟨lexemes, limit, hlaid, hlimit⟩ := ih _ hshorter (before ++ text) after rfl
          rw [List.append_assoc, ← hsplit] at hlaid hlimit
          refine ⟨⟨token, ⟨Text.byteLength before, Text.byteLength (before ++ text)⟩⟩ :: lexemes,
            limit, ⟨hnone, ?_, hlaid⟩, hlimit⟩
          exact (standsIn_iff.mpr ⟨text, after, hsplit, rfl, hspells⟩).1
        · exact ⟨[], _, hnone, Or.inr ⟨before, c, tail, rfl, rfl, by simpa using hc,
            fun token text after hsplit hspells => hspelled ⟨token, text, after, hsplit, hspells⟩⟩⟩

end Laid

/-! ## Scanning where no lexeme starts -/

/-- What is refused is a part at the front of the text. -/
theorem refusedPart_prefix {cs : List Char} (h : cs ≠ []) :
    refusedPart cs <+: cs ∧ refusedPart cs ≠ [] := by
  unfold refusedPart
  split
  · exact ⟨List.prefix_rfl, h⟩
  · exact ⟨List.take_prefix 1 cs, by simpa using h⟩

theorem exists_of_spacingFault? {token : Token} {after : List Char} {fault : Fault}
    (h : spacingFault? token after = some fault) : ∃ op, fault = .operatorNotSpaced op := by
  unfold spacingFault? at h
  split at h
  · split at h
    · cases h
    · cases h
      exact ⟨_, rfl⟩
  · cases h

/-- Where no lexeme starts the scan fails, and a part of the text that starts there is at fault. -/
theorem scanFrom_of_not_spells {c : Char} {rest : List Char} (hgap : isGap c = false)
    (hnone : ∀ token text after, c :: rest = text ++ after → ¬Spells token text after)
    (offset : Nat) : ∃ fault text after, c :: rest = text ++ after ∧ text ≠ [] ∧
      fault ≠ .emptyExpression ∧
      scanFrom offset (c :: rest) =
        ⟨[], some ⟨fault, ⟨offset, offset + Text.byteLength text⟩⟩⟩ := by
  rw [scanFrom, if_neg (by simp [hgap])]
  split
  · obtain ⟨⟨after, hafter⟩, hne⟩ := refusedPart_prefix (List.cons_ne_nil c rest)
    exact ⟨_, _, after, hafter.symm, hne, by simp, rfl⟩
  · next r hfront =>
    obtain ⟨text, token, after⟩ := r
    obtain ⟨hsplit, hne⟩ := front?_split hfront
    cases hspacing : spacingFault? token after with
    | none =>
        obtain ⟨hsplit, hspells⟩ := front?_spells_iff.mp ⟨hfront, hspacing⟩
        exact absurd hspells (hnone token text after hsplit)
    | some fault =>
        obtain ⟨op, rfl⟩ := exists_of_spacingFault? hspacing
        exact ⟨.operatorNotSpaced op, text, after, hsplit.symm, hne, by simp, rfl⟩

/-! ## The whole text -/

theorem tokenize_eq_ok_iff {source : String} {lexemes : List Lexeme} :
    tokenize source = .ok lexemes ↔ scan source = ⟨lexemes, none⟩ := by
  unfold tokenize
  rcases scan source with ⟨found, _ | e⟩ <;> simp

theorem tokenize_eq_error_iff {source : String} {e : ParseError} :
    tokenize source = .error e ↔ (scan source).failure = some e := by
  unfold tokenize
  rcases scan source with ⟨found, _ | e⟩ <;> simp

/-- Lexemes that are laid out up to the end of a text make up the scan of it. -/
theorem scan_of_laid {source : String} {lexemes : List Lexeme}
    (h : Laid source.toList (Text.byteLength source.toList) 0 lexemes) :
    scan source = ⟨lexemes, none⟩ := by
  obtain ⟨front, back, hsplit, hlimit, hscan⟩ := scanFrom_of_laid [] source.toList h
  have hend : source.toList ++ [] = front ++ back := by simpa using hsplit
  obtain ⟨-, rfl⟩ := Text.append_inj_of_byteLength hend hlimit
  rw [scanFrom_nil, Scan.prepend_nil] at hscan
  exact hscan

/-- Lexemes that are laid out up to a place where none starts are read before the scan fails. -/
theorem scan_of_stuck {source : String} {lexemes : List Lexeme} {place : Nat}
    (h : Laid source.toList place 0 lexemes) (hstuck : Stuck source.toList place) :
    ∃ e, scan source = ⟨lexemes, some e⟩ ∧ e.span.start = place ∧
      e.span.Within source.toList ∧ e.fault ≠ .emptyExpression := by
  obtain ⟨front, back, hsplit, hlimit, hscan⟩ := scanFrom_of_laid [] source.toList h
  obtain ⟨before, c, rest, hcut, rfl, hgap, hnone⟩ := hstuck
  obtain ⟨rfl, rfl⟩ := Text.append_inj_of_byteLength (hsplit.symm.trans hcut) hlimit.symm
  obtain ⟨fault, text, after, htext, hne, hfault, hfails⟩ :=
    scanFrom_of_not_spells hgap hnone (Text.byteLength front)
  rw [hfails, Scan.prepend_nil] at hscan
  refine ⟨_, hscan, rfl, ?_, hfault⟩
  exact ⟨front, text, after, ⟨by rw [hcut, htext], rfl⟩, hne⟩

/-- The lexemes that are read are laid out up to where the scan ends: at the end of the text, or at
a place where none starts. -/
theorem scan_cases (source : String) : ∃ found limit, Laid source.toList limit 0 found ∧
    ((limit = Text.byteLength source.toList ∧ scan source = ⟨found, none⟩) ∨
      (Stuck source.toList limit ∧ ∃ e, scan source = ⟨found, some e⟩ ∧ e.span.start = limit ∧
        e.span.Within source.toList ∧ e.fault ≠ .emptyExpression)) := by
  obtain ⟨found, limit, hlaid, hlimit⟩ := exists_laid [] source.toList
  refine ⟨found, limit, hlaid, ?_⟩
  rcases hlimit with rfl | hstuck
  · exact Or.inl ⟨rfl, scan_of_laid hlaid⟩
  · exact Or.inr ⟨hstuck, scan_of_stuck hlaid hstuck⟩

theorem standsIn_of_mem_scan {source : String} {l : Lexeme} (h : l ∈ (scan source).lexemes) :
    l.StandsIn source.toList := by
  obtain ⟨found, limit, hlaid, hcases⟩ := scan_cases source
  have hfound : l ∈ found := by
    rcases hcases with ⟨-, hscan⟩ | ⟨-, e, hscan, -⟩
    · rwa [hscan] at h
    · rwa [hscan] at h
  exact (hlaid.standsIn l hfound).2

/-- **A scan drops nothing and accepts exactly what is spelled.** It succeeds with the lexemes
that can be laid out up to the end of the text. It fails, having read the lexemes that can be
laid out up to there, at the place where a text neither ends nor has a gap and no lexeme starts.
The lexemes that are read stand in the text, are not empty and do not overlap. -/
theorem tokenize_exact (source : String) :
    (∀ lexemes, tokenize source = .ok lexemes ↔
      Laid source.toList (Text.byteLength source.toList) 0 lexemes) ∧
    (∀ lexemes place, (∃ e, tokenize source = .error e ∧ (scan source).lexemes = lexemes ∧
        e.span.start = place) ↔
      Laid source.toList place 0 lexemes ∧ Stuck source.toList place) ∧
    (∀ l ∈ (scan source).lexemes, l.span.start < l.span.stop ∧ l.StandsIn source.toList) ∧
    (scan source).lexemes.Pairwise fun a b => a.span.stop ≤ b.span.start := by
  obtain ⟨found, limit, hlaid, hcases⟩ := scan_cases source
  have hfound : (scan source).lexemes = found := by
    rcases hcases with ⟨-, hscan⟩ | ⟨-, e, hscan, -⟩
    · rw [hscan]
    · rw [hscan]
  rw [hfound]
  refine ⟨fun lexemes => ⟨?_, ?_⟩, fun lexemes place => ⟨?_, ?_⟩, ?_, hlaid.pairwise⟩
  · intro h
    have hok := tokenize_eq_ok_iff.mp h
    rcases hcases with ⟨rfl, hscan⟩ | ⟨-, e, hscan, -⟩
    · rw [hscan] at hok
      cases hok
      exact hlaid
    · rw [hscan] at hok
      cases hok
  · intro h
    exact tokenize_eq_ok_iff.mpr (scan_of_laid h)
  · rintro ⟨e, he, rfl, rfl⟩
    have hfailure := tokenize_eq_error_iff.mp he
    rcases hcases with ⟨-, hscan⟩ | ⟨hstuck, e', hscan, hstart, -⟩
    · rw [hscan] at hfailure
      cases hfailure
    · rw [hscan] at hfailure
      cases hfailure
      rw [hstart]
      exact ⟨hlaid, hstuck⟩
  · rintro ⟨h, hstuck⟩
    obtain ⟨e, hscan, hstart, -⟩ := scan_of_stuck h hstuck
    refine ⟨e, tokenize_eq_error_iff.mpr (by rw [hscan]), ?_, hstart⟩
    rw [← hfound, hscan]
  · intro l hl
    have hstands := (hlaid.standsIn l hl).2
    exact ⟨(Span.within_iff.mp hstands.within).2.2, hstands⟩

/-- The lexemes before a word that is no criterion: a parenthesis, a quoted value with a character
of two bytes, and an operator in mixed case. -/
theorem tokenize_exact_refused_tail :
    let cs := "(name:\"\u00e9 (\" aNd ra:10".toList
    let operator : Lexeme := ⟨.operator .and, ⟨13, 16⟩⟩
    (Laid cs 17 0 [⟨.leftParen, ⟨0, 1⟩⟩, ⟨.condition ⟨.name, "\u00e9 ("⟩, ⟨1, 12⟩⟩, operator] ∧
      Stuck cs 17) ∧ operator.StandsIn cs := by
  have hscan : scan "(name:\"\u00e9 (\" aNd ra:10" =
      ⟨[⟨.leftParen, ⟨0, 1⟩⟩, ⟨.condition ⟨.name, "\u00e9 ("⟩, ⟨1, 12⟩⟩, ⟨.operator .and, ⟨13, 16⟩⟩],
        some ⟨.unexpectedInput 'r', ⟨17, 18⟩⟩⟩ := by
    decide +kernel
  obtain ⟨-, hfails, hspans, -⟩ := tokenize_exact "(name:\"\u00e9 (\" aNd ra:10"
  rw [hscan] at hfails hspans
  exact ⟨(hfails _ 17).mp ⟨_, tokenize_eq_error_iff.mpr (by rw [hscan]), rfl, rfl⟩,
    (hspans ⟨.operator .and, ⟨13, 16⟩⟩ (by simp)).2⟩

end SkyCatalog.Query
