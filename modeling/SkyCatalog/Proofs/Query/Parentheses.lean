import Mathlib.Data.List.FinRange
import SkyCatalog.Proofs.Query.Reordering

/-!
# Parentheses and their partners

Whether reordering succeeds depends on the parentheses alone, and so does the place at which it
fails (`failure?_shunt`): it succeeds exactly if they are balanced (`exists_shunt_iff`).

Two parentheses are partners if what stands between them is balanced. A closing parenthesis may
have its partner before it (`HasOpening`), an opening one behind it (`HasClosing`). What has been
read falls into balanced parts between the parentheses that are open (`Opened`), and from this it
follows which parenthesis is at fault (`parenFault?_located`), and that none is exactly if every
one has its partner (`balanced_iff_matched`). `toPostfix_reorders` states this together with the
order in which the lexemes are written.
-/

namespace SkyCatalog.Query

/-- With `depth` parentheses open before the lexemes, every parenthesis has its partner. -/
def Balanced (depth : Nat) : List Lexeme → Prop
  | [] => depth = 0
  | l :: rest =>
      match l.token with
      | .leftParen => Balanced (depth + 1) rest
      | .rightParen => 0 < depth ∧ Balanced (depth - 1) rest
      | .operator _ | .condition _ => Balanced depth rest

/-- The fault in the parentheses of lexemes before which `openings` are open, the latest first. -/
def parenFault? (openings : List Lexeme) : List Lexeme → Option ParseError
  | [] => openings.head?.map fun opening => ⟨.unclosedOpen, opening.span⟩
  | l :: rest =>
      match l.token with
      | .leftParen => parenFault? (l :: openings) rest
      | .rightParen =>
          match openings with
          | [] => some ⟨.unmatchedClose, l.span⟩
          | _ :: outer => parenFault? outer rest
      | .operator _ | .condition _ => parenFault? openings rest

section Balanced

variable {a b openings rest : List Lexeme} {depth : Nat} {l : Lexeme}

theorem paren_cases (l : Lexeme) :
    l.token = .leftParen ∨ l.token = .rightParen ∨ l.isParen = false := by
  cases htoken : l.token <;> simp [Lexeme.isParen, htoken]

theorem balanced_cons_open (h : l.token = .leftParen) :
    Balanced depth (l :: rest) ↔ Balanced (depth + 1) rest := by
  simp only [Balanced, h]

theorem balanced_cons_close (h : l.token = .rightParen) :
    Balanced depth (l :: rest) ↔ ∃ outer, depth = outer + 1 ∧ Balanced outer rest := by
  cases depth <;> simp [Balanced, h]

theorem balanced_cons_other (h : l.isParen = false) :
    Balanced depth (l :: rest) ↔ Balanced depth rest := by
  cases htoken : l.token with
  | leftParen => simp [Lexeme.isParen, htoken] at h
  | rightParen => simp [Lexeme.isParen, htoken] at h
  | operator op => simp only [Balanced, htoken]
  | condition c => simp only [Balanced, htoken]

theorem parenFault?_cons_open (h : l.token = .leftParen) :
    parenFault? openings (l :: rest) = parenFault? (l :: openings) rest := by
  simp only [parenFault?, h]

theorem parenFault?_cons_close (h : l.token = .rightParen) (opening : Lexeme) :
    parenFault? (opening :: openings) (l :: rest) = parenFault? openings rest := by
  simp only [parenFault?, h]

theorem parenFault?_nil_close (h : l.token = .rightParen) :
    parenFault? [] (l :: rest) = some ⟨.unmatchedClose, l.span⟩ := by
  simp only [parenFault?, h]

theorem parenFault?_cons_other (h : l.isParen = false) :
    parenFault? openings (l :: rest) = parenFault? openings rest := by
  cases htoken : l.token with
  | leftParen => simp [Lexeme.isParen, htoken] at h
  | rightParen => simp [Lexeme.isParen, htoken] at h
  | operator op => simp only [parenFault?, htoken]
  | condition c => simp only [parenFault?, htoken]

/-- Behind lexemes that close what was open before them the count goes on with what is left. -/
theorem balanced_add_append_iff {more : Nat} (ha : Balanced depth a) :
    Balanced (depth + more) (a ++ b) ↔ Balanced more b := by
  induction a generalizing depth with
  | nil =>
      obtain rfl : depth = 0 := ha
      rw [List.nil_append, Nat.zero_add]
  | cons l rest ih =>
      rcases paren_cases l with hopen | hclose | hother
      · rw [balanced_cons_open hopen] at ha
        rw [List.cons_append, balanced_cons_open hopen, Nat.add_right_comm]
        exact ih ha
      · obtain ⟨outer, rfl, hrest⟩ := (balanced_cons_close hclose).mp ha
        rw [List.cons_append, balanced_cons_close hclose, ← ih hrest, Nat.add_right_comm]
        simp
      · rw [balanced_cons_other hother] at ha
        rw [List.cons_append, balanced_cons_other hother]
        exact ih ha

theorem balanced_append_iff (ha : Balanced 0 a) :
    Balanced depth (a ++ b) ↔ Balanced depth b := by
  have h : Balanced (0 + depth) (a ++ b) ↔ Balanced depth b := balanced_add_append_iff ha
  rwa [Nat.zero_add] at h

theorem exists_balanced_of_append (h : Balanced depth (a ++ b)) : ∃ more, Balanced more b := by
  induction a generalizing depth with
  | nil => exact ⟨depth, h⟩
  | cons l rest ih =>
      rw [List.cons_append] at h
      rcases paren_cases l with hopen | hclose | hother
      · exact ih ((balanced_cons_open hopen).mp h)
      · obtain ⟨outer, -, hrest⟩ := (balanced_cons_close hclose).mp h
        exact ih hrest
      · exact ih ((balanced_cons_other hother).mp h)

/-- Where `inner + outer + 1` parentheses are open, the first place at which only `outer` of them
are left is behind a closing parenthesis. -/
theorem exists_close_of_balanced {inner outer : Nat} (h : Balanced (inner + outer + 1) a) :
    ∃ between closing after, a = between ++ closing :: after ∧ closing.token = .rightParen ∧
      Balanced inner between ∧ Balanced outer after := by
  induction a generalizing inner with
  | nil => cases h
  | cons l rest ih =>
      rcases paren_cases l with hopen | hclose | hother
      · have hdepth : inner + outer + 1 + 1 = inner + 1 + outer + 1 := by omega
        rw [balanced_cons_open hopen, hdepth] at h
        obtain ⟨between, closing, after, rfl, hclosing, hbetween, hafter⟩ := ih h
        exact ⟨l :: between, closing, after, rfl, hclosing, (balanced_cons_open hopen).mpr hbetween,
          hafter⟩
      · obtain ⟨_, heq, hrest⟩ := (balanced_cons_close hclose).mp h
        cases Nat.succ.inj heq
        -- this is the place if none of the inner ones is open any more
        cases inner with
        | zero => exact ⟨[], l, rest, rfl, hclose, rfl, by simpa using hrest⟩
        | succ inner =>
            rw [Nat.add_right_comm] at hrest
            obtain ⟨between, closing, after, rfl, hclosing, hbetween, hafter⟩ := ih hrest
            exact ⟨l :: between, closing, after, rfl, hclosing,
              (balanced_cons_close hclose).mpr ⟨inner, rfl, hbetween⟩, hafter⟩
      · rw [balanced_cons_other hother] at h
        obtain ⟨between, closing, after, rfl, hclosing, hbetween, hafter⟩ := ih h
        exact ⟨l :: between, closing, after, rfl, hclosing,
          (balanced_cons_other hother).mpr hbetween, hafter⟩

theorem parenFault?_eq_none_iff :
    parenFault? openings a = none ↔ Balanced openings.length a := by
  induction a generalizing openings with
  | nil => cases openings <;> simp [parenFault?, Balanced]
  | cons l rest ih =>
      rcases paren_cases l with hopen | hclose | hother
      · rw [parenFault?_cons_open hopen, balanced_cons_open hopen]
        exact ih
      · rw [balanced_cons_close hclose]
        cases openings with
        | nil => simp [parenFault?_nil_close hclose]
        | cons opening outer => simp [parenFault?_cons_close hclose, ih]
      · rw [parenFault?_cons_other hother, balanced_cons_other hother]
        exact ih

end Balanced

/-! ## Partners -/

/-- A closing parenthesis behind these lexemes has its partner among them. -/
def HasOpening (before : List Lexeme) : Prop :=
  ∃ outer opening inner, before = outer ++ opening :: inner ∧ opening.token = .leftParen ∧
    Balanced 0 inner

/-- An opening parenthesis before these lexemes has its partner among them. -/
def HasClosing (after : List Lexeme) : Prop :=
  ∃ inner closing outer, after = inner ++ closing :: outer ∧ closing.token = .rightParen ∧
    Balanced 0 inner

/-- Every closing parenthesis has its partner. -/
def ClosingsMatched (lexemes : List Lexeme) : Prop :=
  AtEvery (fun before l => l.token = .rightParen → HasOpening before) lexemes

/-- Every opening parenthesis has its partner. -/
def OpeningsMatched (lexemes : List Lexeme) : Prop :=
  ∀ before opening after, lexemes = before ++ opening :: after → opening.token = .leftParen →
    HasClosing after

/-- The first closing parenthesis without a partner. -/
def FirstUnmatched (lexemes : List Lexeme) (closing : Lexeme) : Prop :=
  ∃ before after, lexemes = before ++ closing :: after ∧ closing.token = .rightParen ∧
    ¬HasOpening before ∧ ClosingsMatched before

/-- The last opening parenthesis that is never closed. -/
def LastUnclosed (lexemes : List Lexeme) (opening : Lexeme) : Prop :=
  ∃ before after, lexemes = before ++ opening :: after ∧ opening.token = .leftParen ∧
    ¬HasClosing after ∧ OpeningsMatched after

/-- The parentheses that are open behind lexemes, the latest first: what stands before, between
and behind them is balanced. -/
inductive Opened : List Lexeme → List Lexeme → Prop
  | none {before : List Lexeme} : Balanced 0 before → Opened [] before
  | push {openings before inner : List Lexeme} {opening : Lexeme} :
      Opened openings before → opening.token = .leftParen → Balanced 0 inner →
        Opened (opening :: openings) (before ++ opening :: inner)

section Partners

variable {openings before inner lexemes rest : List Lexeme} {l : Lexeme}

theorem not_hasOpening_of_balanced (h : Balanced 0 before) : ¬HasOpening before := by
  rintro ⟨outer, opening, inner, rfl, hopening, hinner⟩
  obtain ⟨depth, hdepth⟩ := exists_balanced_of_append h
  -- one parenthesis more is open before what is balanced than behind it
  have hmore : Balanced (depth + 1) (inner ++ []) := by
    simpa [balanced_cons_open hopening] using hdepth
  cases (balanced_append_iff hinner).mp hmore

theorem not_hasClosing_of_balanced (h : Balanced 0 inner) : ¬HasClosing inner := by
  rintro ⟨between, closing, after, rfl, hclosing, hbetween⟩
  have hrest : Balanced 0 (closing :: after) := (balanced_append_iff hbetween).mp h
  obtain ⟨_, hzero, -⟩ := (balanced_cons_close hclosing).mp hrest
  cases hzero

theorem openingsMatched_of_balanced (h : Balanced 0 inner) : OpeningsMatched inner := by
  rintro before opening after rfl hopening
  obtain ⟨depth, hdepth⟩ := exists_balanced_of_append h
  rw [balanced_cons_open hopening, ← Nat.zero_add depth] at hdepth
  obtain ⟨between, closing, outer, rfl, hclosing, hbetween, -⟩ := exists_close_of_balanced hdepth
  exact ⟨between, closing, outer, rfl, hclosing, hbetween⟩

theorem Opened.append (h : Opened openings before) (hinner : Balanced 0 inner) :
    Opened openings (before ++ inner) := by
  cases h with
  | none hbefore =>
      exact .none ((balanced_append_iff hbefore).mpr hinner)
  | push houter hopening hbetween =>
      rw [List.append_assoc, List.cons_append]
      exact .push houter hopening ((balanced_append_iff hbetween).mpr hinner)

/-- A closing parenthesis closes the latest one that is open. -/
theorem Opened.close {opening : Lexeme} (h : Opened (opening :: openings) before)
    (hl : l.token = .rightParen) : HasOpening before ∧ Opened openings (before ++ [l]) := by
  cases h with
  | @push _ outer inner _ houter hopening hinner =>
      refine ⟨⟨outer, opening, inner, rfl, hopening, hinner⟩, ?_⟩
      -- with its partner it becomes a part of what is balanced before it
      have hclosed : Balanced 0 (opening :: (inner ++ [l])) := by
        have hone : Balanced 1 [l] := (balanced_cons_close hl).mpr ⟨0, rfl, rfl⟩
        exact (balanced_cons_open hopening).mpr ((balanced_append_iff hinner).mpr hone)
      rw [List.append_assoc, List.cons_append]
      exact houter.append hclosed

/-- Either every parenthesis has its partner, or the first closing one without a partner is at
fault, or there is none and the last opening one that is never closed is at fault. -/
theorem parenFault?_located (hopened : Opened openings before)
    (hmatched : ClosingsMatched before) :
    (parenFault? openings rest = none ∧ ClosingsMatched (before ++ rest) ∧
      Balanced 0 (before ++ rest)) ∨
    (∃ closing, FirstUnmatched (before ++ rest) closing ∧
      parenFault? openings rest = some ⟨.unmatchedClose, closing.span⟩) ∨
    (ClosingsMatched (before ++ rest) ∧ ∃ opening, LastUnclosed (before ++ rest) opening ∧
      parenFault? openings rest = some ⟨.unclosedOpen, opening.span⟩) := by
  -- by induction on what comes, with what has been read as the parts between the open ones
  induction rest generalizing openings before with
  | nil =>
      rw [List.append_nil]
      cases hopened with
      | none hbefore => exact Or.inl ⟨rfl, hmatched, hbefore⟩
      | @push outer front inner opening houter hopening hinner =>
          exact Or.inr (Or.inr ⟨hmatched, opening, ⟨front, inner, rfl, hopening,
            not_hasClosing_of_balanced hinner, openingsMatched_of_balanced hinner⟩, rfl⟩)
  | cons l rest ih =>
      rw [List.append_cons]
      rcases paren_cases l with hopen | hclose | hother
      · rw [parenFault?_cons_open hopen]
        exact ih (hopened.push hopen rfl) (atEvery_concat_iff.mpr ⟨hmatched, by simp [hopen]⟩)
      · cases openings with
        | nil =>
            -- what has been read is balanced, so that no partner is left in it
            rw [parenFault?_nil_close hclose]
            cases hopened with
            | none hbefore =>
              exact Or.inr (Or.inl ⟨l, ⟨before, rest, by simp, hclose,
                not_hasOpening_of_balanced hbefore, hmatched⟩, rfl⟩)
        | cons opening outer =>
            rw [parenFault?_cons_close hclose opening]
            obtain ⟨hpartner, hclosed⟩ := hopened.close hclose
            exact ih hclosed (atEvery_concat_iff.mpr ⟨hmatched, fun _ => hpartner⟩)
      · rw [parenFault?_cons_other hother]
        have hone : Balanced 0 [l] := (balanced_cons_other hother).mpr rfl
        have hno : ¬l.token = .rightParen := by
          intro hclose
          simp [Lexeme.isParen, hclose] at hother
        exact ih (hopened.append hone)
          (atEvery_concat_iff.mpr ⟨hmatched, fun hclose => absurd hclose hno⟩)

/-- The fault in the parentheses of a sequence. -/
theorem parenFault?_cases (lexemes : List Lexeme) :
    (parenFault? [] lexemes = none ∧ ClosingsMatched lexemes ∧ Balanced 0 lexemes) ∨
    (∃ closing, FirstUnmatched lexemes closing ∧
      parenFault? [] lexemes = some ⟨.unmatchedClose, closing.span⟩) ∨
    (ClosingsMatched lexemes ∧ ∃ opening, LastUnclosed lexemes opening ∧
      parenFault? [] lexemes = some ⟨.unclosedOpen, opening.span⟩) := by
  have hnone : ClosingsMatched [] := by
    intro before l after hsplit
    simp at hsplit
  have hbalanced : Balanced 0 [] := rfl
  exact parenFault?_located (.none hbalanced) hnone

/-- Parentheses are balanced exactly if every one of them has its partner. -/
theorem balanced_iff_matched (lexemes : List Lexeme) :
    Balanced 0 lexemes ↔ ClosingsMatched lexemes ∧ OpeningsMatched lexemes := by
  constructor
  · intro hbalanced
    have hnone : parenFault? [] lexemes = none := parenFault?_eq_none_iff.mpr hbalanced
    rcases parenFault?_cases lexemes with ⟨-, hclosings, -⟩ | ⟨closing, -, hfault⟩ |
      ⟨-, opening, -, hfault⟩
    · exact ⟨hclosings, openingsMatched_of_balanced hbalanced⟩
    · cases hnone.symm.trans hfault
    · cases hnone.symm.trans hfault
  · rintro ⟨hclosings, hopenings⟩
    -- a fault would be at a parenthesis without a partner
    rcases parenFault?_cases lexemes with ⟨-, -, hbalanced⟩ |
      ⟨closing, ⟨before, after, hsplit, hclose, hno, -⟩, -⟩ |
      ⟨-, opening, ⟨before, after, hsplit, hopen, hno, -⟩, -⟩
    · exact hbalanced
    · exact absurd (hclosings before closing after hsplit hclose) hno
    · exact absurd (hopenings before opening after hsplit hopen) hno

end Partners

/-! ## Reordering fails at a parenthesis -/

section Failure

variable {holding openings lexemes out : List Lexeme}

theorem openings_release (released : Lexeme → Bool)
    (hreleased : ∀ l, released l = true → l.isBarrier = false) (holding : List Lexeme) :
    holding.filter Lexeme.isBarrier = (holding.dropWhile released).filter Lexeme.isBarrier := by
  have htaken : (holding.takeWhile released).filter Lexeme.isBarrier = [] :=
    List.filter_eq_nil_iff.mpr fun l hl => by simp [hreleased l (List.mem_takeWhile_imp hl)]
  conv_lhs => rw [← List.takeWhile_append_dropWhile (p := released) (l := holding)]
  rw [List.filter_append, htaken, List.nil_append]

theorem failure?_releaseAll (holding : List Lexeme) :
    failure? (releaseAll holding) = parenFault? (holding.filter Lexeme.isBarrier) [] := by
  rw [releaseAll, parenFault?, List.head?_filter]
  cases holding.find? Lexeme.isBarrier <;> rfl

/-- Reordering fails for the parentheses, of which the open ones are held. -/
theorem failure?_shunt (holding lexemes : List Lexeme) :
    failure? (shunt holding lexemes) = parenFault? (holding.filter Lexeme.isBarrier) lexemes := by
  -- by induction on what comes: only parentheses change which openings are held
  induction lexemes generalizing holding with
  | nil => exact failure?_releaseAll holding
  | cons l rest ih =>
      rcases shunt_step holding l rest with ⟨c, htoken, hstep⟩ | ⟨op, htoken, hstep⟩ |
        ⟨htoken, hstep⟩ | ⟨barrier, outer, htoken, hdrop, hstep⟩ | ⟨htoken, hdrop, hstep⟩
      · have hother : l.isParen = false := by simp [Lexeme.isParen, htoken]
        rw [hstep, failure?_map, ih, parenFault?_cons_other hother]
      · have hother : l.isParen = false := by simp [Lexeme.isParen, htoken]
        have hno : ¬l.isBarrier = true := by simp [Lexeme.isBarrier, htoken]
        rw [hstep, failure?_map, ih, List.filter_cons_of_neg hno, parenFault?_cons_other hother,
          ← openings_release _ fun _ => not_isBarrier_of_yieldsTo]
      · have hopen : l.isBarrier = true := by simp [Lexeme.isBarrier, htoken]
        rw [hstep, ih, List.filter_cons_of_pos hopen, parenFault?_cons_open htoken]
      · rw [hstep, failure?_map, ih, openings_release (!·.isBarrier) (by simp) holding, hdrop,
          List.filter_cons_of_pos (isBarrier_of_dropWhile hdrop), parenFault?_cons_close htoken]
      · rw [hstep, openings_release (!·.isBarrier) (by simp) holding, hdrop, List.filter_nil,
          parenFault?_nil_close htoken]
        rfl

/-- Reordering succeeds exactly if every parenthesis has its partner. -/
theorem exists_shunt_iff : (∃ out, shunt holding lexemes = .ok out) ↔
    Balanced (holding.countP Lexeme.isBarrier) lexemes := by
  rw [← failure?_eq_none_iff, failure?_shunt, parenFault?_eq_none_iff,
    List.countP_eq_length_filter]

end Failure

/-! ## The order of the lexemes -/

section Order

variable {lexemes out : List Lexeme}

theorem exists_order_of_toPostfix (h : toPostfix lexemes = .ok out) :
    ∃ order : List (Fin lexemes.length), out = order.map lexemes.get ∧ order.Nodup ∧
      (∀ i, i ∈ order ↔ (lexemes.get i).isParen = false) ∧
      order.Pairwise fun i j => (lexemes.get j).isCondition = true → i < j := by
  have hplaces : shunt ([].map lexemes.get) ((List.finRange lexemes.length).map lexemes.get) =
      .ok out := by
    rw [List.map_get_finRange]
    exact h
  obtain ⟨order, rfl, hperm, hpairwise⟩ := exists_order_of_shunt (by simp)
    (List.pairwise_lt_finRange lexemes.length) (by simp) hplaces
  rw [List.filter_nil, List.nil_append] at hperm
  refine ⟨order, rfl, ?_, fun i => by simp [hperm.mem_iff], hpairwise⟩
  exact hperm.nodup_iff.mpr ((List.nodup_finRange _).filter _)

/-- The conditions stay in their order. -/
theorem filter_isCondition_toPostfix (h : toPostfix lexemes = .ok out) :
    out.filter Lexeme.isCondition = lexemes.filter Lexeme.isCondition := by
  obtain ⟨order, rfl, hnodup, hmem, hpairwise⟩ := exists_order_of_toPostfix h
  -- the places of the conditions are the same in both orders, and both are increasing
  have hplaces : order.filter (Lexeme.isCondition ∘ lexemes.get) =
      (List.finRange lexemes.length).filter (Lexeme.isCondition ∘ lexemes.get) := by
    have hincreasing : (order.filter (Lexeme.isCondition ∘ lexemes.get)).Pairwise (· < ·) :=
      List.pairwise_filter.mpr (hpairwise.imp fun h _ hj => h hj)
    have hall :=
      (List.pairwise_lt_finRange lexemes.length).filter (Lexeme.isCondition ∘ lexemes.get)
    refine List.Perm.eq_of_pairwise (fun _ _ _ _ hlt hgt => absurd hgt (Fin.lt_asymm hlt))
      hincreasing hall ?_
    refine (List.perm_ext_iff_of_nodup (hnodup.filter _) ((List.nodup_finRange _).filter _)).mpr ?_
    intro i
    -- a condition is no parenthesis, so that its place is written
    have hwritten : (lexemes.get i).isCondition = true → i ∈ order := fun hi =>
      (hmem i).mpr (Lexeme.not_isParen_of_isCondition hi)
    simpa using hwritten
  calc (order.map lexemes.get).filter Lexeme.isCondition
      = (order.filter (Lexeme.isCondition ∘ lexemes.get)).map lexemes.get := List.filter_map
    _ = ((List.finRange lexemes.length).filter (Lexeme.isCondition ∘ lexemes.get)).map
          lexemes.get := by rw [hplaces]
    _ = ((List.finRange lexemes.length).map lexemes.get).filter Lexeme.isCondition :=
        List.filter_map.symm
    _ = lexemes.filter Lexeme.isCondition := by rw [List.map_get_finRange]

end Order

/-- **Reordering only reorders, and fails at a parenthesis.** It succeeds exactly if the parentheses
are balanced, that is if every one has its partner. Its result is then a permutation of the other
lexemes in which the conditions stay in their order: it goes once through the places of all lexemes
but the parentheses, and what stands before a condition in it stood before that condition in the
sequence, so that no operator gets before a condition that it stood behind. Otherwise the fault is
the first closing parenthesis without a partner, if there is one, and else the last opening one that
is never closed. -/
theorem toPostfix_reorders (lexemes : List Lexeme) :
    ((∃ out, toPostfix lexemes = .ok out) ↔ Balanced 0 lexemes) ∧
    (Balanced 0 lexemes ↔ ClosingsMatched lexemes ∧ OpeningsMatched lexemes) ∧
    (∀ out, toPostfix lexemes = .ok out →
      out.Perm (lexemes.filter (!·.isParen)) ∧
      out.filter Lexeme.isCondition = lexemes.filter Lexeme.isCondition ∧
      ∃ order : List (Fin lexemes.length), out = order.map lexemes.get ∧ order.Nodup ∧
        (∀ i, i ∈ order ↔ (lexemes.get i).isParen = false) ∧
        order.Pairwise fun i j => (lexemes.get j).isCondition = true → i < j) ∧
    ∀ e, toPostfix lexemes = .error e →
      (∃ closing, FirstUnmatched lexemes closing ∧ e = ⟨.unmatchedClose, closing.span⟩) ∨
      (ClosingsMatched lexemes ∧
        ∃ opening, LastUnclosed lexemes opening ∧ e = ⟨.unclosedOpen, opening.span⟩) := by
  refine ⟨exists_shunt_iff, balanced_iff_matched lexemes, fun out h => ⟨shunt_perm h,
    filter_isCondition_toPostfix h, exists_order_of_toPostfix h⟩, fun e h => ?_⟩
  have hfault : parenFault? [] lexemes = some e := by
    have hfailure : failure? (toPostfix lexemes) = parenFault? [] lexemes :=
      failure?_shunt [] lexemes
    rw [← hfailure, failure?_eq_some_iff]
    exact h
  rcases parenFault?_cases lexemes with ⟨hnone, -⟩ | ⟨closing, hfirst, hsome⟩ |
    ⟨hclosings, opening, hlast, hsome⟩
  · cases hnone.symm.trans hfault
  · cases hsome.symm.trans hfault
    exact Or.inl ⟨closing, hfirst, rfl⟩
  · cases hsome.symm.trans hfault
    exact Or.inr ⟨hclosings, opening, hlast, rfl⟩

/-- A term in parentheses, and the same lexemes with the parentheses turned around, so that neither
has its partner and the closing one is at fault. -/
theorem toPostfix_reorders_turned_around :
    let opening : Lexeme := ⟨.leftParen, ⟨0, 1⟩⟩
    let a : Lexeme := ⟨.condition ⟨.pgc, "1"⟩, ⟨1, 6⟩⟩
    let op : Lexeme := ⟨.operator .or, ⟨7, 9⟩⟩
    let b : Lexeme := ⟨.condition ⟨.name, "M33"⟩, ⟨10, 18⟩⟩
    let closing : Lexeme := ⟨.rightParen, ⟨18, 19⟩⟩
    toPostfix [opening, a, op, b, closing] = .ok [a, b, op] ∧
      [a, b, op].Perm ([opening, a, op, b, closing].filter (!·.isParen)) ∧
      toPostfix [closing, a, op, b, opening] = .error ⟨.unmatchedClose, ⟨18, 19⟩⟩ ∧
      ∃ l, FirstUnmatched [closing, a, op, b, opening] l ∧ l.span = ⟨18, 19⟩ := by
  intro opening a op b closing
  have hok : toPostfix [opening, a, op, b, closing] = .ok [a, b, op] := rfl
  have herror : toPostfix [closing, a, op, b, opening] = .error ⟨.unmatchedClose, ⟨18, 19⟩⟩ := rfl
  have hperm := ((toPostfix_reorders [opening, a, op, b, closing]).2.2.1 _ hok).1
  refine ⟨hok, hperm, herror, ?_⟩
  rcases (toPostfix_reorders [closing, a, op, b, opening]).2.2.2 _ herror with
    ⟨l, hfirst, he⟩ | ⟨-, l, -, he⟩
  · exact ⟨l, hfirst, (congrArg ParseError.span he).symm⟩
  · cases he

end SkyCatalog.Query
