import SkyCatalog.CommandLine.Commands
import SkyCatalog.Proofs.Query.Lexemes
import SkyCatalog.Proofs.Query.Postorder
import SkyCatalog.Proofs.Query.RoundTrip
import SkyCatalog.Proofs.Query.ShortCircuit

/-!
# Expressions put together from others

An expression that is parsed is a part of a longer one in parentheses. A text that is scanned to
its end is scanned in the same way, only further on, where no bare character follows it
(`scanFrom_append`). Reordering does not look at the places of lexemes (`shunt_map`), and between
parentheses it goes as if nothing else were held (`shunt_enclosed`). So a sequence in parentheses
comes out as one operand (`Means.exists_operand`), and two of them with an operator between as the
postorder of the two expressions and the operator.

`selectFrom_composes` draws the consequence for the objects that are selected.
-/

namespace SkyCatalog.Query

/-! ## Scanning a part of a text -/

/-- The lexeme further on in a text. -/
def Lexeme.shift (distance : Nat) (l : Lexeme) : Lexeme :=
  ⟨l.token, ⟨l.span.start + distance, l.span.stop + distance⟩⟩

section Scanning

variable {token : Token} {cs text after rest tail : List Char} {lexemes : List Lexeme}

theorem Delimited.append (hafter : Delimited after) (hrest : Delimited rest) :
    Delimited (after ++ rest) := by
  cases after with
  | nil => exact hrest
  | cons c after => exact hafter

/-- What is spelled is spelled as well where more follows, unless that makes a bare value longer. -/
theorem Spells.append (h : Spells token text after) (hrest : Delimited rest) :
    Spells token text (after ++ rest) := by
  cases h with
  | leftParen => exact .leftParen _
  | rightParen => exact .rightParen _
  | operator after word isBlank => exact .operator _ word isBlank
  | condition criterion spelled =>
      refine .condition criterion ?_
      cases spelled with
      | quoted _ noQuote => exact .quoted _ noQuote
      | bare nonempty bare longest => exact .bare nonempty bare (longest.append hrest)

/-- What a scan does at the front of a text. -/
theorem scanFrom_step (offset : Nat) (c : Char) (tail : List Char) :
    (isGap c = true ∧ scanFrom offset (c :: tail) = scanFrom (offset + c.utf8Size) tail) ∨
    (∃ token text after, c :: tail = text ++ after ∧ Spells token text after ∧
      scanFrom offset (c :: tail) = (scanFrom (offset + Text.byteLength text) after).prepend
        [⟨token, ⟨offset, offset + Text.byteLength text⟩⟩]) ∨
    ∃ e, scanFrom offset (c :: tail) = ⟨[], some e⟩ := by
  by_cases hgap : isGap c = true
  · exact Or.inl ⟨hgap, scanFrom_gap offset hgap tail⟩
  · by_cases hspelled : ∃ token text after, c :: tail = text ++ after ∧ Spells token text after
    · obtain ⟨token, text, after, hsplit, hspells⟩ := hspelled
      exact Or.inr (Or.inl ⟨token, text, after, hsplit, hspells,
        by rw [hsplit, scanFrom_spells hspells]⟩)
    · obtain ⟨fault, text, after, -, -, -, hfails⟩ := scanFrom_of_not_spells (by simpa using hgap)
        (fun token text after hsplit hspells => hspelled ⟨token, text, after, hsplit, hspells⟩)
        offset
      exact Or.inr (Or.inr ⟨_, hfails⟩)

/-- A text that is scanned to its end is scanned in the same way further on, and the scan goes on
with what follows it. -/
theorem scanFrom_append {offset : Nat} (h : scanFrom offset cs = ⟨lexemes, none⟩)
    (hrest : Delimited rest) (distance : Nat) :
    scanFrom (offset + distance) (cs ++ rest) =
      (scanFrom (offset + Text.byteLength cs + distance) rest).prepend
        (lexemes.map (Lexeme.shift distance)) := by
  -- by induction on what is left of the text
  induction hlength : cs.length using Nat.strong_induction_on generalizing cs offset lexemes with
  | h n ih =>
    subst hlength
    cases cs with
    | nil =>
        rw [scanFrom_nil] at h
        cases h
        rfl
    | cons c tail =>
      rcases scanFrom_step offset c tail with ⟨hgap, hstep⟩ |
        ⟨token, text, after, hsplit, hspells, hstep⟩ | ⟨e, hstep⟩
      · have hlater := ih _ (by simp) (hstep ▸ h) rfl
        rw [List.cons_append, scanFrom_gap _ hgap, Nat.add_right_comm, hlater, Text.byteLength,
          Nat.add_assoc offset]
      · have hshorter : after.length < (c :: tail).length := by
          have hpos := List.length_pos_iff.mpr hspells.ne_nil
          rw [hsplit, List.length_append]
          omega
        -- the first lexeme ends where it did, and so does what is scanned behind it
        obtain ⟨hlexemes, hfailure⟩ := Scan.mk.inj (hstep ▸ h)
        have hlater := ih _ hshorter (congrArg (Scan.mk _) hfailure) rfl
        rw [hsplit, List.append_assoc, scanFrom_spells (hspells.append hrest), Nat.add_right_comm,
          hlater, Scan.prepend_prepend, Text.byteLength_append, ← hlexemes, ← Nat.add_assoc offset]
        rfl
      · cases hstep.symm.trans h

/-- A text in parentheses is scanned as its lexemes, further on, in parentheses. -/
theorem scanFrom_enclosed {source : String} (h : tokenize source = .ok lexemes) (offset : Nat)
    (tail : List Char) : ∃ opening closing distance stop,
      scanFrom offset ('(' :: (source.toList ++ ')' :: tail)) = (scanFrom stop tail).prepend
        (⟨.leftParen, opening⟩ ::
          (lexemes.map (Lexeme.shift distance) ++ [⟨.rightParen, closing⟩])) := by
  obtain ⟨opening, distance, hopen⟩ := scanFrom_leftParen offset (source.toList ++ ')' :: tail)
  obtain ⟨closing, stop, hclose⟩ :=
    scanFrom_rightParen (0 + Text.byteLength source.toList + distance) tail
  have hdelimited : Delimited (')' :: tail) := delimited_cons rfl tail
  have hinner := scanFrom_append (tokenize_eq_ok_iff.mp h) hdelimited distance
  rw [Nat.zero_add] at hinner
  refine ⟨opening, closing, distance, stop, ?_⟩
  rw [hopen, hinner, hclose, Scan.prepend_prepend, Scan.prepend_prepend]
  rfl

end Scanning

/-! ## Reordering a part of a sequence -/

section Reordering

variable {holding lexemes out : List Lexeme}

/-- Reordering does not look at the places of the lexemes. -/
theorem shunt_map {g : Lexeme → Lexeme} (hg : ∀ l, (g l).token = l.token)
    (h : shunt holding lexemes = .ok out) :
    shunt (holding.map g) (lexemes.map g) = .ok (out.map g) := by
  -- what is released is decided by the tokens of what is held
  have hyields : ∀ op, Lexeme.yieldsTo op ∘ g = Lexeme.yieldsTo op := by
    intro op
    funext l
    simp [Lexeme.yieldsTo, hg]
  have hbarrier : (!·.isBarrier) ∘ g = (!·.isBarrier) := by
    funext l
    simp [Lexeme.isBarrier, hg]
  induction lexemes generalizing holding out with
  | nil =>
      obtain ⟨rfl, hnone⟩ := shunt_nil h
      have hfind : (holding.map g).find? Lexeme.isBarrier = none := by
        simpa [Lexeme.isBarrier, hg] using hnone
      rw [List.map_nil, shunt, releaseAll, hfind]
  | cons l rest ih =>
      rw [List.map_cons]
      rcases shunt_cases h with ⟨c, later, htoken, hlater, rfl⟩ |
        ⟨op, later, htoken, hlater, rfl⟩ | ⟨htoken, hlater⟩ |
        ⟨barrier, outer, later, htoken, hdrop, hlater, rfl⟩
      · rw [shunt_condition ((hg l).trans htoken), ih hlater]
        rfl
      · have hrest := ih hlater
        rw [List.map_cons] at hrest
        rw [shunt_operator ((hg l).trans htoken), List.takeWhile_map, List.dropWhile_map,
          hyields, hrest, List.map_append]
        rfl
      · rw [shunt_leftParen ((hg l).trans htoken), ← List.map_cons, ih hlater]
      · have hdrop' : (holding.map g).dropWhile (!·.isBarrier) = g barrier :: outer.map g := by
          rw [List.dropWhile_map, hbarrier, hdrop, List.map_cons]
        rw [shunt_rightParen ((hg l).trans htoken) hdrop', List.takeWhile_map, hbarrier,
          ih hlater, List.map_append]
        rfl

/-- Nothing is released beyond what does not go. -/
theorem release_append {p : Lexeme → Bool} {barrier : Lexeme} (h : p barrier = false)
    (held outer : List Lexeme) :
    (held ++ barrier :: outer).takeWhile p = held.takeWhile p ∧
      (held ++ barrier :: outer).dropWhile p = held.dropWhile p ++ barrier :: outer := by
  induction held with
  | nil => simp [h]
  | cons l held ih => cases hl : p l <;> simp [hl, ih]

/-- Between parentheses reordering goes as if nothing were held outside of them. -/
theorem shunt_enclosed {barrier closing : Lexeme} (hbarrier : barrier.token = .leftParen)
    (hclosing : closing.token = .rightParen) (h : shunt holding lexemes = .ok out)
    (outer rest : List Lexeme) :
    shunt (holding ++ barrier :: outer) (lexemes ++ closing :: rest) =
      (shunt outer rest).map (out ++ ·) := by
  -- neither an operator nor a closing parenthesis releases the one that opens, or what is below it
  have hopen : (!barrier.isBarrier) = false := by simp [Lexeme.isBarrier, hbarrier]
  have hkept : ∀ op, Lexeme.yieldsTo op barrier = false := by
    intro op
    simp [Lexeme.yieldsTo, hbarrier]
  -- by induction on what stands between them: what is released there was held there
  induction lexemes generalizing holding out with
  | nil =>
      obtain ⟨rfl, hnone⟩ := shunt_nil h
      -- the closing parenthesis releases all that is held since the one that opens
      have hall : ∀ l ∈ holding, (!l.isBarrier) = true := fun l hl => by simp [hnone l hl]
      obtain ⟨htake, hdrop⟩ := release_append (p := (!·.isBarrier)) hopen holding outer
      rw [List.dropWhile_eq_nil_iff.mpr hall, List.nil_append] at hdrop
      rw [List.nil_append, shunt_rightParen hclosing hdrop, htake,
        List.takeWhile_eq_self_iff.mpr hall]
  | cons l between ih =>
      rw [List.cons_append]
      rcases shunt_cases h with ⟨c, later, htoken, hlater, rfl⟩ |
        ⟨op, later, htoken, hlater, rfl⟩ | ⟨htoken, hlater⟩ |
        ⟨inner, outer', later, htoken, hinner, hlater, rfl⟩
      · rw [shunt_condition htoken, ih hlater, map_map]
        rfl
      · obtain ⟨htake, hdrop⟩ := release_append (hkept op) holding outer
        rw [shunt_operator htoken, htake, hdrop, ← List.cons_append, ih hlater, map_map]
        simp only [List.append_assoc]
      · rw [shunt_leftParen htoken, ← List.cons_append, ih hlater]
      · obtain ⟨htake, hdrop⟩ := release_append (p := (!·.isBarrier)) hopen holding outer
        rw [hinner, List.cons_append] at hdrop
        rw [shunt_rightParen htoken hdrop, htake, ih hlater, map_map]
        simp only [List.append_assoc]

end Reordering

/-! ## Sequences that mean an expression -/

/-- The lexemes come out as the postorder of an expression. -/
def Means (lexemes : List Lexeme) (e : Expr) : Prop :=
  ∃ out, toPostfix lexemes = .ok out ∧ out.map (·.token) = e.postorder

theorem parse_eq_ok_iff_means {source : String} {e : Expr} :
    parse source = .ok e ↔ ∃ lexemes, tokenize source = .ok lexemes ∧ Means lexemes e := by
  simp only [parse, parsePostfix, bind_eq_ok_iff, build_eq_ok_iff_postorder, Means]
  constructor
  · rintro ⟨out, ⟨lexemes, htokens, hout⟩, he⟩
    exact ⟨lexemes, htokens, out, hout, he⟩
  · rintro ⟨lexemes, htokens, out, hout, he⟩
    exact ⟨out, ⟨lexemes, htokens, hout⟩, he⟩

section Means

variable {la lb : List Lexeme} {a b : Expr}

/-- Wherever it stands, what means an expression comes out in parentheses as one operand. -/
theorem Means.exists_operand (h : Means la a) (distance : Nat) (opening closing : Span) :
    ∃ operand : List Lexeme, operand.map (·.token) = a.postorder ∧
      ∀ outer rest : List Lexeme,
        shunt outer (⟨.leftParen, opening⟩ ::
            (la.map (Lexeme.shift distance) ++ ⟨.rightParen, closing⟩ :: rest)) =
          (shunt outer rest).map (operand ++ ·) := by
  obtain ⟨out, hout, htokens⟩ := h
  -- further on in the text the same comes out, further on
  have hshifted := shunt_map (g := Lexeme.shift distance) (fun _ => rfl) hout
  refine ⟨out.map (Lexeme.shift distance), ?_, ?_⟩
  · rw [List.map_map, ← htokens]
    rfl
  · intro outer rest
    rw [shunt_leftParen rfl]
    exact shunt_enclosed rfl rfl hshifted outer rest

theorem Means.enclosed (h : Means la a) (distance : Nat) (opening closing : Span) :
    Means (⟨.leftParen, opening⟩ ::
      (la.map (Lexeme.shift distance) ++ [⟨.rightParen, closing⟩])) a := by
  obtain ⟨operand, htokens, hshunt⟩ := h.exists_operand distance opening closing
  refine ⟨operand, ?_, htokens⟩
  rw [toPostfix, hshunt]
  exact congrArg Except.ok (List.append_nil operand)

/-- Two sequences in parentheses and an operator between them. -/
theorem Means.joined (ha : Means la a) (hb : Means lb b) (op : Operator)
    (distance distance' : Nat) (opening closing opening' closing' span : Span) :
    Means (⟨.leftParen, opening⟩ :: (la.map (Lexeme.shift distance) ++ ⟨.rightParen, closing⟩ ::
      ⟨.operator op, span⟩ :: ⟨.leftParen, opening'⟩ ::
        (lb.map (Lexeme.shift distance') ++ [⟨.rightParen, closing'⟩]))) (.binary op a b) := by
  obtain ⟨left, hleft, hshuntLeft⟩ := ha.exists_operand distance opening closing
  obtain ⟨right, hright, hshuntRight⟩ := hb.exists_operand distance' opening' closing'
  refine ⟨left ++ (right ++ [⟨.operator op, span⟩]), ?_, by simp [hleft, hright, Expr.postorder]⟩
  -- nothing is held before the operator, and the operator itself is held to the end
  rw [toPostfix, hshuntLeft, shunt_operator rfl, List.dropWhile_nil, hshuntRight]
  rfl

end Means

/-! ## Texts that are put together -/

section Texts

variable {A B : String} {a b : Expr}

theorem parse_enclosed (ha : parse A = .ok a) : parse ("(" ++ A ++ ")") = .ok a := by
  obtain ⟨la, htokens, hmeans⟩ := parse_eq_ok_iff_means.mp ha
  obtain ⟨opening, closing, distance, stop, hscan⟩ := scanFrom_enclosed htokens 0 []
  rw [scanFrom_nil, Scan.prepend_nil] at hscan
  refine parse_eq_ok_iff_means.mpr ⟨_, tokenize_eq_ok_iff.mpr ?_,
    hmeans.enclosed distance opening closing⟩
  rw [scan, ← hscan]
  simp [String.toList_append]

theorem parse_joined (ha : parse A = .ok a) (hb : parse B = .ok b) (op : Operator) :
    parse ("(" ++ A ++ ") " ++ String.ofList op.word ++ " (" ++ B ++ ")") =
      .ok (.binary op a b) := by
  obtain ⟨la, htokensA, hmeansA⟩ := parse_eq_ok_iff_means.mp ha
  obtain ⟨lb, htokensB, hmeansB⟩ := parse_eq_ok_iff_means.mp hb
  have hword : op.word.map Char.toLower = op.word := by cases op <;> rfl
  -- the parts of the text from left to right
  obtain ⟨opening, closing, distance, stop, hscan⟩ :=
    scanFrom_enclosed htokensA 0 (' ' :: (op.word ++ ' ' :: '(' :: (B.toList ++ [')'])))
  obtain ⟨span, start, hscanOp⟩ := scanFrom_operator hword stop ('(' :: (B.toList ++ [')']))
  obtain ⟨opening', closing', distance', stop', hscanB⟩ := scanFrom_enclosed htokensB start []
  rw [hscanOp, hscanB, scanFrom_nil, Scan.prepend_nil] at hscan
  refine parse_eq_ok_iff_means.mpr ⟨_, tokenize_eq_ok_iff.mpr ?_,
    hmeansA.joined hmeansB op distance distance' opening closing opening' closing' span⟩
  have htext : ("(" ++ A ++ ") " ++ String.ofList op.word ++ " (" ++ B ++ ")").toList =
      '(' :: (A.toList ++ ')' :: ' ' :: (op.word ++ ' ' :: '(' :: (B.toList ++ [')']))) := by
    simp [String.toList_append]
  rw [scan, htext, hscan]
  simp [Scan.prepend]

end Texts

/-! ## What is selected -/

section Selection

variable {catalogue : List ReferenceObject}

theorem Expr.mem_select {e : Expr} {o : ReferenceObject} :
    o ∈ e.select catalogue ↔ o ∈ catalogue ∧ e.evaluate (Condition.meets o) = true :=
  List.mem_filter

/-- An operator selects by what its operands select. -/
theorem Expr.select_binary (op : Operator) (a b : Expr) (catalogue : List ReferenceObject) :
    (Expr.binary op a b).select catalogue = catalogue.filter fun o =>
      op.apply (o ∈ a.select catalogue) (o ∈ b.select catalogue) := by
  refine List.filter_congr fun o ho => ?_
  -- an object of the catalogue is selected if the expression holds of it
  have hselected : ∀ e : Expr,
      decide (o ∈ e.select catalogue) = e.evaluate (Condition.meets o) := fun e => by
    simp [Expr.mem_select, ho]
  rw [hselected, hselected, evaluate_eq_value, evaluate_eq_value, evaluate_eq_value, Expr.value]

end Selection

end SkyCatalog.Query

namespace SkyCatalog.CommandLine

open Query

/-- An expression that is parsed selects from the catalogue, if the submission can be read. -/
theorem selectFrom_of_parse {source : String} {e : Expr} (h : parse source = .ok e)
    (documents : Documents) (name : String) :
    selectFrom documents source name =
      (load documents Submission.read? name).map fun s => e.select s.catalogue := by
  rw [selectFrom, h]
  rfl

/-- **Expressions compose as texts.** Two texts that are parsed are parsed as parts of a longer one:
in parentheses as they are, and with `and` or `or` between the parentheses as the expression with
this operator. The longer text selects from a submission what its parts select, in the order of the
catalogue: the objects that both select, or those that either selects. If the submission cannot be
read all of them fail alike. -/
theorem selectFrom_composes {A B : String} {a b : Expr} (ha : parse A = .ok a)
    (hb : parse B = .ok b) :
    parse ("(" ++ A ++ ")") = .ok a ∧
    parse ("(" ++ A ++ ") and (" ++ B ++ ")") = .ok (.binary .and a b) ∧
    parse ("(" ++ A ++ ") or (" ++ B ++ ")") = .ok (.binary .or a b) ∧
    ∀ (documents : Documents) (name : String),
      selectFrom documents ("(" ++ A ++ ")") name = selectFrom documents A name ∧
      (∀ submission, load documents Submission.read? name = .ok submission →
        ∃ selectedA selectedB,
          selectFrom documents A name = .ok selectedA ∧
          selectFrom documents B name = .ok selectedB ∧
          selectedA.Sublist submission.catalogue ∧ selectedB.Sublist submission.catalogue ∧
          selectFrom documents ("(" ++ A ++ ") and (" ++ B ++ ")") name =
            .ok (submission.catalogue.filter fun o => o ∈ selectedA ∧ o ∈ selectedB) ∧
          selectFrom documents ("(" ++ A ++ ") or (" ++ B ++ ")") name =
            .ok (submission.catalogue.filter fun o => o ∈ selectedA ∨ o ∈ selectedB)) ∧
      ∀ failure, load documents Submission.read? name = .error failure →
        selectFrom documents A name = .error failure ∧
        selectFrom documents B name = .error failure ∧
        selectFrom documents ("(" ++ A ++ ") and (" ++ B ++ ")") name = .error failure ∧
        selectFrom documents ("(" ++ A ++ ") or (" ++ B ++ ")") name = .error failure := by
  have hparens := parse_enclosed ha
  have hand : parse ("(" ++ A ++ ") and (" ++ B ++ ")") = .ok (.binary .and a b) := by
    have htext : "(" ++ A ++ ") and (" ++ B ++ ")" =
        "(" ++ A ++ ") " ++ String.ofList Operator.and.word ++ " (" ++ B ++ ")" := by
      simp [← String.toList_inj, String.toList_append, Operator.word]
    exact htext ▸ parse_joined ha hb .and
  have hor : parse ("(" ++ A ++ ") or (" ++ B ++ ")") = .ok (.binary .or a b) := by
    have htext : "(" ++ A ++ ") or (" ++ B ++ ")" =
        "(" ++ A ++ ") " ++ String.ofList Operator.or.word ++ " (" ++ B ++ ")" := by
      simp [← String.toList_inj, String.toList_append, Operator.word]
    exact htext ▸ parse_joined ha hb .or
  refine ⟨hparens, hand, hor, fun documents name => ⟨?_, ?_, ?_⟩⟩
  · rw [selectFrom_of_parse hparens, selectFrom_of_parse ha]
  · intro submission hload
    refine ⟨a.select submission.catalogue, b.select submission.catalogue, ?_, ?_,
      List.filter_sublist, List.filter_sublist, ?_, ?_⟩
    · rw [selectFrom_of_parse ha, hload]
      rfl
    · rw [selectFrom_of_parse hb, hload]
      rfl
    · rw [selectFrom_of_parse hand, hload]
      simp [Except.map, Expr.select_binary, Operator.apply]
    · rw [selectFrom_of_parse hor, hload]
      simp [Except.map, Expr.select_binary, Operator.apply]
  · intro failure hload
    simp only [selectFrom_of_parse ha, selectFrom_of_parse hb, selectFrom_of_parse hand,
      selectFrom_of_parse hor, hload]
    exact ⟨rfl, rfl, rfl, rfl⟩

/-- A text that ends with an operator and its blank, and one that ends with a bare value behind a
quoted parenthesis, asked of three objects. Where there is no submission nothing is selected. -/
theorem selectFrom_composes_awkward_ends :
    let A := "pgc:1 pgc:2 or "
    let B := "name:\"M (33\" or pgc:2 OR pgc:3"
    let both := "(" ++ A ++ ") and (" ++ B ++ ")"
    let table : Json :=
      .object [("table_id", .int 1), ("table_name", .text "t"), ("columns", .array [])]
    let objects : List Json :=
      [1, 2, 3].map fun pgc => .object [("pgc", .int pgc), ("data", .array [])]
    let documents : Documents := fun _ =>
      some (Json.object [("table", table), ("reference", .array objects)]).compact
    (∃ (submission : Submission) (selectedA selectedB : List ReferenceObject),
      submission.catalogue.map (·.pgc) = [1, 2, 3] ∧
      selectedA.map (·.pgc) = [1, 2] ∧ selectedB.map (·.pgc) = [2, 3] ∧
      selectFrom documents both "s" =
        .ok (submission.catalogue.filter fun o => o ∈ selectedA ∧ o ∈ selectedB)) ∧
    selectFrom (fun _ => none) both "s" = .error .unreadable := by
  intro A B both table objects documents
  have hparses : (parse A).toOption.isSome ∧ (parse B).toOption.isSome := by decide +kernel
  obtain ⟨a, ha⟩ := Option.isSome_iff_exists.mp hparses.1
  obtain ⟨b, hb⟩ := Option.isSome_iff_exists.mp hparses.2
  obtain ⟨-, -, -, hselect⟩ :=
    selectFrom_composes (toOption_eq_some_iff.mp ha) (toOption_eq_some_iff.mp hb)
  have hpgcs : ((load documents Submission.read? "s").toOption.map (·.catalogue.map (·.pgc)),
      (selectFrom documents A "s").toOption.map (·.map (·.pgc)),
      (selectFrom documents B "s").toOption.map (·.map (·.pgc))) =
        (some [1, 2, 3], some [1, 2], some [2, 3]) := by
    decide +kernel
  simp only [Prod.mk.injEq, Option.map_eq_some_iff, toOption_eq_some_iff] at hpgcs
  obtain ⟨⟨submission, hload, hall⟩, ⟨selectedA, hA, hpgcsA⟩, selectedB, hB, hpgcsB⟩ := hpgcs
  obtain ⟨-, hloaded, -⟩ := hselect documents "s"
  obtain ⟨foundA, foundB, hfoundA, hfoundB, -, -, hboth, -⟩ := hloaded submission hload
  cases hA.symm.trans hfoundA
  cases hB.symm.trans hfoundB
  obtain ⟨-, -, hmissing⟩ := hselect (fun _ => none) "s"
  exact ⟨⟨submission, selectedA, selectedB, hall, hpgcsA, hpgcsB, hboth⟩,
    (hmissing .unreadable rfl).2.2.1⟩

end SkyCatalog.CommandLine
