import Mathlib.Data.List.Perm.Basic
import Mathlib.Data.List.TakeWhile
import SkyCatalog.Proofs.Except
import SkyCatalog.Proofs.Query.Precedence

/-!
# What reordering and building keep

Reordering puts the places of the lexemes into another order and loses none but those of the
parentheses (`exists_order_of_shunt`, `shunt_perm`). Building uses up one operand for every
operator (`length_assemble`) and keeps the conditions in their order (`conditions_assemble`).
`shunt_step` and `assemble_step` say everything that the first lexeme can do; all other facts
follow from them by induction on the lexemes. A whole expression is parsed if its lexemes are
read as one operand (`parse_eq_ok_iff`).
-/

namespace SkyCatalog.Query

/-- Is the lexeme a parenthesis? -/
def Lexeme.isParen (l : Lexeme) : Bool :=
  l.token = .leftParen || l.token = .rightParen

/-- Is the lexeme an operator? -/
def Lexeme.isOperator (l : Lexeme) : Bool :=
  match l.token with
  | .operator _ => true
  | _ => false

/-- The condition that a lexeme holds. -/
def Lexeme.condition? (l : Lexeme) : Option Condition :=
  match l.token with
  | .condition c => some c
  | _ => none

/-- Is the lexeme a condition? -/
def Lexeme.isCondition (l : Lexeme) : Bool :=
  l.condition?.isSome

theorem Lexeme.not_isParen_of_isOperator {l : Lexeme} (h : l.isOperator = true) :
    l.isParen = false := by
  unfold Lexeme.isOperator at h
  unfold Lexeme.isParen
  split at h
  · next htoken => simp [htoken]
  · cases h

theorem Lexeme.not_isParen_of_isCondition {l : Lexeme} (h : l.isCondition = true) :
    l.isParen = false := by
  obtain ⟨c, hc⟩ := Option.isSome_iff_exists.mp h
  unfold Lexeme.condition? at hc
  unfold Lexeme.isParen
  split at hc
  · next htoken => simp [htoken]
  · cases hc

/-! ## Places -/

/-- Something holds of every lexeme and those before it. -/
def AtEvery (P : List Lexeme → Lexeme → Prop) (lexemes : List Lexeme) : Prop :=
  ∀ before l after, lexemes = before ++ l :: after → P before l

theorem atEvery_concat_iff {P : List Lexeme → Lexeme → Prop} {lexemes : List Lexeme} {l : Lexeme} :
    AtEvery P (lexemes ++ [l]) ↔ AtEvery P lexemes ∧ P lexemes l := by
  constructor
  · intro h
    refine ⟨fun before k after hsplit => ?_, h lexemes l [] rfl⟩
    exact h before k (after ++ [l]) (by simp [hsplit])
  · rintro ⟨hlexemes, hl⟩ before k after hsplit
    -- the lexeme is the last one or one of those before it
    rcases List.eq_nil_or_concat' after with rfl | ⟨shorter, last, rfl⟩
    · obtain ⟨rfl, hk⟩ := List.append_inj' hsplit rfl
      cases hk
      exact hl
    · rw [← List.cons_append, ← List.append_assoc] at hsplit
      obtain ⟨hsplit, -⟩ := List.append_inj' hsplit rfl
      exact hlexemes before k shorter hsplit

/-! ## Reordering -/

section Shunt

variable {holding out rest lexemes : List Lexeme} {l : Lexeme}

/-- What the first lexeme does, and the one place where it cannot be passed. -/
theorem shunt_step (holding : List Lexeme) (l : Lexeme) (rest : List Lexeme) :
    (∃ c, l.token = .condition c ∧
      shunt holding (l :: rest) = (shunt holding rest).map (l :: ·)) ∨
    (∃ op, l.token = .operator op ∧
      shunt holding (l :: rest) = (shunt (l :: holding.dropWhile (Lexeme.yieldsTo op)) rest).map
        (holding.takeWhile (Lexeme.yieldsTo op) ++ ·)) ∨
    (l.token = .leftParen ∧ shunt holding (l :: rest) = shunt (l :: holding) rest) ∨
    (∃ barrier outer, l.token = .rightParen ∧
      holding.dropWhile (!·.isBarrier) = barrier :: outer ∧
      shunt holding (l :: rest) =
        (shunt outer rest).map (holding.takeWhile (!·.isBarrier) ++ ·)) ∨
    (l.token = .rightParen ∧ holding.dropWhile (!·.isBarrier) = [] ∧
      shunt holding (l :: rest) = .error ⟨.unmatchedClose, l.span⟩) := by
  cases htoken : l.token with
  | condition c => exact Or.inl ⟨c, rfl, shunt_condition htoken⟩
  | operator op => exact Or.inr (Or.inl ⟨op, rfl, shunt_operator htoken⟩)
  | leftParen => exact Or.inr (Or.inr (Or.inl ⟨rfl, shunt_leftParen htoken⟩))
  | rightParen =>
      cases hdrop : holding.dropWhile (!·.isBarrier) with
      | nil => exact Or.inr (Or.inr (Or.inr (Or.inr ⟨rfl, rfl, shunt_unmatched htoken hdrop⟩)))
      | cons barrier outer =>
          exact Or.inr (Or.inr (Or.inr (Or.inl
            ⟨barrier, outer, rfl, rfl, shunt_rightParen htoken hdrop⟩)))

/-- What the first lexeme does where reordering succeeds. -/
theorem shunt_cases (h : shunt holding (l :: rest) = .ok out) :
    (∃ c later, l.token = .condition c ∧ shunt holding rest = .ok later ∧ out = l :: later) ∨
    (∃ op later, l.token = .operator op ∧
      shunt (l :: holding.dropWhile (Lexeme.yieldsTo op)) rest = .ok later ∧
      out = holding.takeWhile (Lexeme.yieldsTo op) ++ later) ∨
    (l.token = .leftParen ∧ shunt (l :: holding) rest = .ok out) ∨
    (∃ barrier outer later, l.token = .rightParen ∧
      holding.dropWhile (!·.isBarrier) = barrier :: outer ∧ shunt outer rest = .ok later ∧
      out = holding.takeWhile (!·.isBarrier) ++ later) := by
  rcases shunt_step holding l rest with ⟨c, htoken, hstep⟩ | ⟨op, htoken, hstep⟩ |
    ⟨htoken, hstep⟩ | ⟨barrier, outer, htoken, hdrop, hstep⟩ | ⟨-, -, hstep⟩
  · obtain ⟨later, hlater, rfl⟩ := map_eq_ok_iff.mp (hstep ▸ h)
    exact Or.inl ⟨c, later, htoken, hlater, rfl⟩
  · obtain ⟨later, hlater, rfl⟩ := map_eq_ok_iff.mp (hstep ▸ h)
    exact Or.inr (Or.inl ⟨op, later, htoken, hlater, rfl⟩)
  · exact Or.inr (Or.inr (Or.inl ⟨htoken, hstep ▸ h⟩))
  · obtain ⟨later, hlater, rfl⟩ := map_eq_ok_iff.mp (hstep ▸ h)
    exact Or.inr (Or.inr (Or.inr ⟨barrier, outer, later, htoken, hdrop, hlater, rfl⟩))
  · rw [hstep] at h
    cases h

/-- What the first lexeme does where reordering fails: it is a closing parenthesis without its
partner, or reordering fails later with lexemes held that were held before or read now. -/
theorem shunt_error_cases {e : ParseError} (h : shunt holding (l :: rest) = .error e) :
    (l.token = .rightParen ∧ e = ⟨.unmatchedClose, l.span⟩) ∨
    ∃ held, held ⊆ l :: holding ∧ shunt held rest = .error e := by
  rcases shunt_step holding l rest with ⟨c, -, hstep⟩ | ⟨op, -, hstep⟩ | ⟨-, hstep⟩ |
    ⟨barrier, outer, -, hdrop, hstep⟩ | ⟨htoken, -, hstep⟩
  · exact Or.inr ⟨holding, List.subset_cons_self _ _, map_eq_error_iff.mp (hstep ▸ h)⟩
  · exact Or.inr ⟨_, List.cons_subset_cons _ (List.dropWhile_sublist _).subset,
      map_eq_error_iff.mp (hstep ▸ h)⟩
  · exact Or.inr ⟨_, List.Subset.refl _, hstep ▸ h⟩
  · have houter : outer ⊆ holding := fun x hx =>
      (List.dropWhile_sublist _).subset (hdrop ▸ List.mem_cons_of_mem _ hx)
    exact Or.inr ⟨outer, List.subset_cons_of_subset _ houter, map_eq_error_iff.mp (hstep ▸ h)⟩
  · rw [hstep] at h
    cases h
    exact Or.inl ⟨htoken, rfl⟩

theorem shunt_nil_error {e : ParseError} (h : shunt holding [] = .error e) :
    ∃ barrier ∈ holding, barrier.isBarrier = true ∧ e = ⟨.unclosedOpen, barrier.span⟩ := by
  rw [shunt, releaseAll] at h
  cases hfind : holding.find? Lexeme.isBarrier with
  | some barrier =>
      rw [hfind] at h
      cases h
      exact ⟨barrier, List.mem_of_find?_eq_some hfind, List.find?_some hfind, rfl⟩
  | none =>
      rw [hfind] at h
      cases h

theorem shunt_nil (h : shunt holding [] = .ok out) :
    holding = out ∧ ∀ l ∈ holding, l.isBarrier = false := by
  rw [shunt, releaseAll] at h
  cases hfind : holding.find? Lexeme.isBarrier with
  | some barrier =>
      rw [hfind] at h
      cases h
  | none =>
      rw [hfind] at h
      cases h
      exact ⟨rfl, fun l hl => by simpa using List.find?_eq_none.mp hfind l hl⟩

theorem not_isBarrier_of_yieldsTo {op : Operator} (h : l.yieldsTo op = true) :
    l.isBarrier = false := by
  unfold Lexeme.yieldsTo at h
  unfold Lexeme.isBarrier
  cases htoken : l.token with
  | operator top => rfl
  | condition c => rfl
  | rightParen => rfl
  | leftParen => simp [htoken] at h

/-- What is released from the front holds no barrier. -/
theorem filter_release {ι : Type} (f : ι → Lexeme) (released : Lexeme → Bool)
    (hreleased : ∀ l, released l = true → l.isBarrier = false) (held : List ι) :
    held.filter (fun i => !(f i).isBarrier) =
      held.takeWhile (released ∘ f) ++
        (held.dropWhile (released ∘ f)).filter fun i => !(f i).isBarrier := by
  have htaken : (held.takeWhile (released ∘ f)).filter (fun i => !(f i).isBarrier) =
      held.takeWhile (released ∘ f) :=
    List.filter_eq_self.mpr fun i hi => by
      have hi' : released (f i) = true := List.mem_takeWhile_imp (p := released ∘ f) hi
      simp [hreleased (f i) hi']
  conv_lhs => rw [← List.takeWhile_append_dropWhile (p := released ∘ f) (l := held)]
  rw [List.filter_append, htaken]

/-- What a closing parenthesis stops at is a barrier. -/
theorem isBarrier_of_dropWhile {barrier : Lexeme} {outer : List Lexeme}
    (h : holding.dropWhile (!·.isBarrier) = barrier :: outer) : barrier.isBarrier = true := by
  simpa [h] using List.head?_dropWhile_not (!·.isBarrier) holding

section Order

variable {ι : Type} {f : ι → Lexeme} {R : ι → ι → Prop} {held coming order : List ι}

/-- What one lexeme does to the places of the lexemes that are held: some are written, the others
are still held, and its own place is added to either, unless it is a parenthesis that closes. -/
theorem shunt_places {i : ι} (hheld : ∀ k ∈ held, (f k).isCondition = false)
    (h : shunt (held.map f) ((i :: coming).map f) = .ok out) :
    ∃ (written held' : List ι) (later : List Lexeme), out = written.map f ++ later ∧
      shunt (held'.map f) (coming.map f) = .ok later ∧
      (written ++ held'.filter fun k => !(f k).isBarrier).Perm
        (held.filter (fun k => !(f k).isBarrier) ++ [i].filter fun k => !(f k).isParen) ∧
      (∀ k ∈ held', (f k).isCondition = false) ∧ (∀ k ∈ written ++ held', k ∈ i :: held) ∧
      written.Pairwise fun _ k => (f k).isCondition = false := by
  have htaken : ∀ p : ι → Bool, held.takeWhile p ⊆ held := fun p =>
    (List.takeWhile_sublist p).subset
  have hkept : ∀ p : ι → Bool, held.dropWhile p ⊆ held := fun p =>
    (List.dropWhile_sublist p).subset
  have hvacuous : ∀ p : ι → Bool,
      (held.takeWhile p).Pairwise fun _ k => (f k).isCondition = false := fun p =>
    List.pairwise_of_forall_mem_list fun _ _ k hk => hheld k (htaken p hk)
  rw [List.map_cons] at h
  -- a condition is written, an operator releases others and is held, an opening parenthesis is
  -- held, and a closing one releases all up to its partner
  rcases shunt_cases h with ⟨c, later, htoken, hlater, rfl⟩ | ⟨op, later, htoken, hlater, rfl⟩ |
    ⟨htoken, hlater⟩ | ⟨barrier, outer, later, htoken, hdrop, hlater, rfl⟩
  · refine ⟨[i], held, later, rfl, hlater, ?_, hheld, fun k hk => hk, List.pairwise_singleton _ _⟩
    have hno : Lexeme.isParen (f i) = false := by simp [Lexeme.isParen, htoken]
    rw [List.filter_cons_of_pos (by simp [hno])]
    exact List.perm_append_comm
  · rw [List.dropWhile_map, ← List.map_cons] at hlater
    refine ⟨held.takeWhile (Lexeme.yieldsTo op ∘ f), _, later, by rw [List.takeWhile_map], hlater,
      ?_, ?_, ?_, hvacuous _⟩
    · have hnone : Lexeme.isBarrier (f i) = false := by simp [Lexeme.isBarrier, htoken]
      have hno : Lexeme.isParen (f i) = false := by simp [Lexeme.isParen, htoken]
      rw [filter_release f _ (fun _ => not_isBarrier_of_yieldsTo) held, List.append_assoc,
        List.filter_cons_of_pos (by simp [hnone]), List.filter_cons_of_pos (by simp [hno])]
      exact (List.perm_append_singleton i _).symm.append_left _
    · exact List.forall_mem_cons.mpr ⟨by simp [Lexeme.isCondition, Lexeme.condition?, htoken],
        fun k hk => hheld k (hkept _ hk)⟩
    · exact List.forall_mem_append.mpr ⟨fun k hk => List.mem_cons_of_mem i (htaken _ hk),
        List.forall_mem_cons.mpr
          ⟨List.mem_cons_self, fun k hk => List.mem_cons_of_mem i (hkept _ hk)⟩⟩
  · refine ⟨[], i :: held, out, rfl, hlater, ?_, ?_, fun k hk => hk, .nil⟩
    · simp [Lexeme.isBarrier, Lexeme.isParen, htoken]
    · exact List.forall_mem_cons.mpr
        ⟨by simp [Lexeme.isCondition, Lexeme.condition?, htoken], hheld⟩
  · have hbarrier := isBarrier_of_dropWhile hdrop
    rw [List.dropWhile_map] at hdrop
    obtain ⟨b, inner, hdropped, rfl, rfl⟩ := List.map_eq_cons_iff.mp hdrop
    have hinner : inner ⊆ held := fun k hk => hkept _ (hdropped ▸ List.mem_cons_of_mem b hk)
    refine ⟨held.takeWhile ((!·.isBarrier) ∘ f), inner, later, by rw [List.takeWhile_map], hlater,
      ?_, fun k hk => hheld k (hinner hk), ?_, hvacuous _⟩
    · have hno : Lexeme.isParen (f i) = true := by simp [Lexeme.isParen, htoken]
      rw [filter_release f (!·.isBarrier) (by simp) held, hdropped,
        List.filter_cons_of_neg (by simp [hbarrier]),
        List.filter_cons_of_neg (by simp [hno]), List.filter_nil, List.append_nil]
    · exact List.forall_mem_append.mpr ⟨fun k hk => List.mem_cons_of_mem i (htaken _ hk),
        fun k hk => List.mem_cons_of_mem i (hinner hk)⟩

/-- A condition that is written later than what is held is still to come. -/
theorem related_of_mem_order (hheld : ∀ i ∈ held, (f i).isCondition = false)
    (hperm : order.Perm (held.filter (fun i => !(f i).isBarrier) ++
      coming.filter fun i => !(f i).isParen)) {i : ι} (hi : ∀ j ∈ coming, R i j) :
    ∀ j ∈ order, (f j).isCondition = true → R i j := by
  intro j hj hcondition
  rcases List.mem_append.mp (hperm.mem_iff.mp hj) with hmem | hmem
  · have hno := hheld j (List.mem_filter.mp hmem).1
    rw [hno] at hcondition
    cases hcondition
  · exact hi j (List.mem_filter.mp hmem).1

/-- **Reordering puts the places of the lexemes into another order.** None is lost but those of
the parentheses. Whatever then stands before a condition is something that was held before or that
stood before it. -/
theorem exists_order_of_shunt (hheld : ∀ i ∈ held, (f i).isCondition = false)
    (hcoming : coming.Pairwise R) (hcross : ∀ i ∈ held, ∀ j ∈ coming, R i j)
    (h : shunt (held.map f) (coming.map f) = .ok out) :
    ∃ order : List ι, out = order.map f ∧
      order.Perm (held.filter (fun i => !(f i).isBarrier) ++
        coming.filter fun i => !(f i).isParen) ∧
      order.Pairwise fun i j => (f j).isCondition = true → R i j := by
  -- by induction on what comes: what is released leaves the list of what is held
  induction coming generalizing held out with
  | nil =>
      obtain ⟨rfl, hnone⟩ := shunt_nil h
      have hall : held.filter (fun i => !(f i).isBarrier) = held :=
        List.filter_eq_self.mpr fun i hi => by simp [hnone (f i) (List.mem_map_of_mem hi)]
      refine ⟨held, rfl, by simp [hall], List.pairwise_of_forall_mem_list fun i _ j hj hc => ?_⟩
      rw [hheld j hj] at hc
      cases hc
  | cons i rest ih =>
      obtain ⟨hfirst, hrest⟩ := List.pairwise_cons.mp hcoming
      -- nothing that is written or held now stood behind what is still to come
      have hbefore : ∀ k ∈ i :: held, ∀ j ∈ rest, R k j :=
        List.forall_mem_cons.mpr
          ⟨hfirst, fun k hk j hj => hcross k hk j (List.mem_cons_of_mem i hj)⟩
      obtain ⟨written, held', later, rfl, hlater, hplaces, hheld', hmem, hwritten⟩ :=
        shunt_places hheld h
      obtain ⟨hmemWritten, hmemHeld⟩ := List.forall_mem_append.mp hmem
      obtain ⟨order, rfl, hperm, hpairwise⟩ :=
        ih hheld' hrest (fun k hk => hbefore k (hmemHeld k hk)) hlater
      refine ⟨written ++ order, by rw [List.map_append], ?_, ?_⟩
      · have hone : (i :: rest).filter (fun k => !(f k).isParen) =
            [i].filter (fun k => !(f k).isParen) ++ rest.filter fun k => !(f k).isParen := by
          rw [← List.filter_append]
          rfl
        rw [hone, ← List.append_assoc]
        refine (hperm.append_left written).trans ?_
        rw [← List.append_assoc]
        exact hplaces.append_right _
      · refine List.pairwise_append.mpr ⟨hwritten.imp ?_, hpairwise, fun k hk => ?_⟩
        · intro a b hb hcondition
          rw [hb] at hcondition
          cases hcondition
        · exact related_of_mem_order hheld' hperm (hbefore k (hmemWritten k hk))

end Order

/-- Reordering keeps every lexeme but the parentheses. -/
theorem shunt_perm (h : shunt [] lexemes = .ok out) :
    out.Perm (lexemes.filter (!·.isParen)) := by
  have hid : shunt ([].map id) (lexemes.map id) = .ok out := by simpa using h
  obtain ⟨order, rfl, hperm, -⟩ := exists_order_of_shunt (R := fun _ _ => True)
    (by simp) (List.pairwise_of_forall (by simp)) (by simp) hid
  simpa using hperm

/-- Lexemes of a kind other than parentheses are as many afterwards as before. -/
theorem countP_shunt (p : Lexeme → Bool) (hp : ∀ l, p l = true → l.isParen = false)
    (h : shunt [] lexemes = .ok out) : out.countP p = lexemes.countP p := by
  have hkept : ∀ l ∈ lexemes, p l = true ↔ (p l && !l.isParen) = true := fun l _ => by
    cases hl : p l
    · simp
    · simp [hp l hl]
  rw [(shunt_perm h).countP_eq, List.countP_filter]
  exact (List.countP_congr hkept).symm

end Shunt

/-! ## Building -/

section Assemble

variable {stack final : List Operand} {rest postfixOrder : List Lexeme} {l : Lexeme}

/-- What the first lexeme does to the stack, and where it cannot be used. -/
theorem assemble_step (stack : List Operand) (l : Lexeme) (rest : List Lexeme) :
    (∃ c, l.token = .condition c ∧
      assemble stack (l :: rest) = assemble (⟨.leaf c, l.span⟩ :: stack) rest) ∨
    (∃ op right left below, l.token = .operator op ∧ stack = right :: left :: below ∧
      assemble stack (l :: rest) = assemble (⟨.binary op left.expr right.expr,
        (left.span.merge right.span).merge l.span⟩ :: below) rest) ∨
    (∃ op, l.token = .operator op ∧ stack.length < 2 ∧
      assemble stack (l :: rest) = .error ⟨.missingOperand op, l.span⟩) ∨
    (l.isParen = true ∧ assemble stack (l :: rest) = .error ⟨.strayParen l.token, l.span⟩) := by
  rw [assemble]
  cases htoken : l.token with
  | condition c => exact Or.inl ⟨c, rfl, rfl⟩
  | operator op =>
      -- an operator needs two operands
      rcases stack with _ | ⟨right, _ | ⟨left, below⟩⟩
      · exact Or.inr (Or.inr (Or.inl ⟨op, rfl, Nat.zero_lt_two, rfl⟩))
      · exact Or.inr (Or.inr (Or.inl ⟨op, rfl, Nat.one_lt_two, rfl⟩))
      · exact Or.inr (Or.inl ⟨op, right, left, below, rfl, rfl, rfl⟩)
  | leftParen => exact Or.inr (Or.inr (Or.inr ⟨by simp [Lexeme.isParen, htoken], rfl⟩))
  | rightParen => exact Or.inr (Or.inr (Or.inr ⟨by simp [Lexeme.isParen, htoken], rfl⟩))

/-- What the first lexeme does where building succeeds. -/
theorem assemble_cases (h : assemble stack (l :: rest) = .ok final) :
    (∃ c, l.token = .condition c ∧ assemble (⟨.leaf c, l.span⟩ :: stack) rest = .ok final) ∨
    (∃ op right left below span, l.token = .operator op ∧ stack = right :: left :: below ∧
      assemble (⟨.binary op left.expr right.expr, span⟩ :: below) rest = .ok final) := by
  rcases assemble_step stack l rest with ⟨c, htoken, hstep⟩ |
    ⟨op, right, left, below, htoken, hstack, hstep⟩ | ⟨op, -, -, hstep⟩ | ⟨-, hstep⟩
  · exact Or.inl ⟨c, htoken, hstep ▸ h⟩
  · exact Or.inr ⟨op, right, left, below, _, htoken, hstack, hstep ▸ h⟩
  · rw [hstep] at h
    cases h
  · rw [hstep] at h
    cases h

/-- A condition adds an operand and an operator uses one up. -/
theorem length_assemble (h : assemble stack postfixOrder = .ok final) :
    final.length + postfixOrder.countP Lexeme.isOperator =
      stack.length + postfixOrder.countP Lexeme.isCondition := by
  induction postfixOrder generalizing stack with
  | nil =>
      cases h
      rfl
  | cons l rest ih =>
      rcases assemble_cases h with ⟨c, htoken, hrest⟩ |
        ⟨op, right, left, below, span, htoken, rfl, hrest⟩
      · have hlength := ih hrest
        have hcondition : l.isCondition = true := by
          simp [Lexeme.isCondition, Lexeme.condition?, htoken]
        have hoperator : ¬l.isOperator = true := by simp [Lexeme.isOperator, htoken]
        rw [List.countP_cons_of_pos hcondition, List.countP_cons_of_neg hoperator]
        simp only [List.length_cons] at hlength
        omega
      · have hlength := ih hrest
        have hcondition : ¬l.isCondition = true := by
          simp [Lexeme.isCondition, Lexeme.condition?, htoken]
        have hoperator : l.isOperator = true := by simp [Lexeme.isOperator, htoken]
        rw [List.countP_cons_of_neg hcondition, List.countP_cons_of_pos hoperator]
        simp only [List.length_cons] at hlength ⊢
        omega

/-- The conditions of a stack of operands, from the earliest to the latest. -/
def conditionsOf (stack : List Operand) : List Condition :=
  stack.reverse.flatMap fun o => o.expr.conditions

theorem conditionsOf_cons (o : Operand) (stack : List Operand) :
    conditionsOf (o :: stack) = conditionsOf stack ++ o.expr.conditions := by
  simp [conditionsOf]

/-- The conditions of the operands are those of the lexemes, in their order. -/
theorem conditions_assemble (h : assemble stack postfixOrder = .ok final) :
    conditionsOf final = conditionsOf stack ++ postfixOrder.filterMap Lexeme.condition? := by
  induction postfixOrder generalizing stack with
  | nil =>
      cases h
      simp
  | cons l rest ih =>
      rcases assemble_cases h with ⟨c, htoken, hrest⟩ |
        ⟨op, right, left, below, span, htoken, rfl, hrest⟩
      · have hcondition : l.condition? = some c := by simp [Lexeme.condition?, htoken]
        rw [ih hrest, List.filterMap_cons_some hcondition, conditionsOf_cons]
        simp [Expr.conditions]
      · have hcondition : l.condition? = none := by simp [Lexeme.condition?, htoken]
        rw [ih hrest, List.filterMap_cons_none hcondition, conditionsOf_cons, conditionsOf_cons,
          conditionsOf_cons]
        simp [Expr.conditions]

end Assemble

/-! ## The whole expression -/

theorem build_eq_ok_iff {postfixOrder : List Lexeme} {tree : Expr} :
    build postfixOrder = .ok tree ↔ ∃ o, assemble [] postfixOrder = .ok [o] ∧ o.expr = tree := by
  rw [build, bind_eq_ok_iff]
  constructor
  · rintro ⟨final, hfinal, h⟩
    split at h
    · cases h
    · next o hone =>
      cases h
      have hfinal' : final = [o] := by simpa using congrArg List.reverse hone
      exact ⟨o, hfinal' ▸ hfinal, rfl⟩
    · cases h
  · rintro ⟨o, ho, rfl⟩
    exact ⟨[o], ho, rfl⟩

/-- An expression is parsed if its lexemes are read as one operand. -/
theorem parse_eq_ok_iff {source : String} {tree : Expr} :
    parse source = .ok tree ↔
      ∃ lexemes o, tokenize source = .ok lexemes ∧ Reads [] [] lexemes [o] ∧ o.expr = tree := by
  simp only [parse, parsePostfix, bind_eq_ok_iff, build_eq_ok_iff, Reads]
  constructor
  · rintro ⟨out, ⟨lexemes, hlexemes, hout⟩, o, ho, htree⟩
    exact ⟨lexemes, o, hlexemes, ⟨out, hout, ho⟩, htree⟩
  · rintro ⟨lexemes, o, hlexemes, ⟨out, hout, ho⟩, htree⟩
    exact ⟨out, ⟨lexemes, hlexemes, hout⟩, o, ho, htree⟩

end SkyCatalog.Query
