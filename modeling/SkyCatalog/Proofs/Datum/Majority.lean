import Mathlib.Data.List.Basic
import Mathlib.Data.List.Induction
import SkyCatalog.Proofs.Holdings

/-!
# The majority of names

The designations of an object vote on the one that stands for them. It is elected by counting the
names in the order in which they first occur, and passing through the counts with the first of the
greatest so far.

After any number of votes the tally has one entry for each name, with its votes, in the order of
first occurrence (`Tallies`, kept by one more vote in `Tallies.count`). The lead goes to a first
maximum (`FirstMost`, kept by one more entry in `FirstMost.overtaken` and `FirstMost.upheld`).
Together they elect the designation with the most votes, and of several the one that occurs first
(`aggregate?_eq_some_iff`). The main statement is `majority_vote`.
-/

namespace SkyCatalog

/-! ## Counting -/

/-- Counting a name for the first time adds an entry behind the others. -/
theorem countName_of_notMem {name : String} {tally : List (String × Nat)}
    (h : name ∉ tally.map (·.1)) : countName name tally = tally ++ [(name, 1)] := by
  induction tally with
  | nil => rfl
  | cons head rest ih =>
      obtain ⟨hne, hrest⟩ := not_or.mp (List.mem_cons.not.mp h)
      rw [countName, if_neg (Ne.symm hne), ih hrest, List.cons_append]

/-- Counting a name again raises its entry in its place. -/
theorem countName_of_mem {name : String} {n : Nat} {before after : List (String × Nat)}
    (h : name ∉ before.map (·.1)) :
    countName name (before ++ (name, n) :: after) = before ++ (name, n + 1) :: after := by
  induction before with
  | nil => simp [countName]
  | cons head rest ih =>
      obtain ⟨hne, hrest⟩ := not_or.mp (List.mem_cons.not.mp h)
      rw [List.cons_append, countName, if_neg (Ne.symm hne), ih hrest, List.cons_append]

/-- A tally of designations: one entry for every name that occurs, with the number of times it
does, in the order of first occurrence. -/
structure Tallies (ds : List Designation) (tally : List (String × Nat)) : Prop where
  mem_iff : ∀ name n, (name, n) ∈ tally ↔ ⟨name⟩ ∈ ds ∧ n = ds.count ⟨name⟩
  ascending : (tally.map (·.1)).Pairwise fun a b => ds.idxOf ⟨a⟩ < ds.idxOf ⟨b⟩

namespace Tallies

variable {ds : List Designation} {tally : List (String × Nat)}

theorem mem_names_iff (h : Tallies ds tally) {name : String} :
    name ∈ tally.map (·.1) ↔ ⟨name⟩ ∈ ds := by
  constructor
  · intro hmem
    obtain ⟨⟨name, n⟩, hentry, rfl⟩ := List.mem_map.mp hmem
    exact ((h.mem_iff name n).mp hentry).1
  · intro hmem
    exact List.mem_map.mpr ⟨(name, _), (h.mem_iff name _).mpr ⟨hmem, rfl⟩, rfl⟩

/-- The names before an entry occur earlier than its own, and those behind it later. -/
theorem around {before after : List (String × Nat)} {entry : String × Nat}
    (h : Tallies ds (before ++ entry :: after)) :
    (∀ name ∈ before.map (·.1), ds.idxOf ⟨name⟩ < ds.idxOf ⟨entry.1⟩) ∧
      ∀ name ∈ after.map (·.1), ds.idxOf ⟨entry.1⟩ < ds.idxOf ⟨name⟩ := by
  have hnames := h.ascending
  rw [List.map_append, List.map_cons, List.pairwise_append, List.pairwise_cons] at hnames
  obtain ⟨-, ⟨hbehind, -⟩, hbetween⟩ := hnames
  exact ⟨fun name hname => hbetween name hname entry.1 List.mem_cons_self, hbehind⟩

/-- The order of first occurrence does not change with what comes later. -/
theorem ascending_append (h : Tallies ds tally) (d : Designation) :
    (tally.map (·.1)).Pairwise fun a b => (ds ++ [d]).idxOf ⟨a⟩ < (ds ++ [d]).idxOf ⟨b⟩ := by
  refine h.ascending.imp_of_mem fun {a b} ha hb hlt => ?_
  rw [List.idxOf_append_of_mem (h.mem_names_iff.mp ha),
    List.idxOf_append_of_mem (h.mem_names_iff.mp hb)]
  exact hlt

/-- The tally after the first vote for a name. -/
theorem count_of_notMem (h : Tallies ds tally) {name : String} (hname : ⟨name⟩ ∉ ds) :
    Tallies (ds ++ [⟨name⟩]) (countName name tally) := by
  rw [countName_of_notMem (mt h.mem_names_iff.mp hname)]
  constructor
  · intro other n
    by_cases hother : other = name
    · subst hother
      simp [h.mem_iff, hname, List.count_eq_zero_of_not_mem hname]
    · simp [h.mem_iff, hother, Ne.symm hother]
  · rw [List.map_append, List.pairwise_append]
    refine ⟨h.ascending_append _, List.pairwise_singleton _ _, ?_⟩
    intro a ha b hb
    obtain rfl := List.mem_singleton.mp hb
    -- the name stands behind all that were there before
    have hmem := h.mem_names_iff.mp ha
    rw [List.idxOf_append_of_mem hmem, List.idxOf_append_of_notMem hname]
    exact Nat.lt_add_right _ (List.idxOf_lt_length_iff.mpr hmem)

/-- The tally after another vote for a name. -/
theorem count_of_mem (h : Tallies ds tally) {name : String} (hname : ⟨name⟩ ∈ ds) :
    Tallies (ds ++ [⟨name⟩]) (countName name tally) := by
  obtain ⟨before, after, rfl⟩ :=
    List.append_of_mem ((h.mem_iff name _).mpr ⟨hname, rfl⟩)
  -- no other entry is of this name, since no two entries have the same first occurrence
  have hbefore : name ∉ before.map (·.1) := fun hmem => Nat.lt_irrefl _ (h.around.1 name hmem)
  have hafter : name ∉ after.map (·.1) := fun hmem => Nat.lt_irrefl _ (h.around.2 name hmem)
  rw [countName_of_mem hbefore]
  constructor
  · intro other n
    by_cases hother : other = name
    · subst hother
      have hnone : ∀ l : List (String × Nat), other ∉ l.map (·.1) → (other, n) ∉ l :=
        fun l hl hmem => hl (List.mem_map_of_mem hmem)
      simp [hnone _ hbefore, hnone _ hafter]
    · have hentry := h.mem_iff other n
      simp only [List.mem_append, List.mem_cons, Prod.mk.injEq, hother, false_and,
        false_or] at hentry
      simp [hentry, hother, Ne.symm hother]
  · simpa using h.ascending_append ⟨name⟩

/-- **One more vote.** -/
theorem count (h : Tallies ds tally) (d : Designation) :
    Tallies (ds ++ [d]) (countName d.name tally) := by
  by_cases hd : d ∈ ds
  · exact h.count_of_mem hd
  · exact h.count_of_notMem hd

end Tallies

/-- The votes are counted. -/
theorem tallies_nameTally (ds : List Designation) : Tallies ds (nameTally ds) := by
  -- the votes are counted from the left, so the last one is the step
  induction ds using List.reverseRecOn with
  | nil => exact ⟨by simp [nameTally], .nil⟩
  | append_singleton ds d ih =>
      rw [nameTally, List.foldl_append]
      exact ih.count d

/-! ## The lead -/

/-- The first of the entries with the greatest count. -/
def FirstMost (tally : List (String × Nat)) (entry : String × Nat) : Prop :=
  ∃ before after, tally = before ++ entry :: after ∧
    (∀ e ∈ before, e.2 < entry.2) ∧ ∀ e ∈ after, e.2 ≤ entry.2

namespace FirstMost

variable {tally : List (String × Nat)} {holder entry : String × Nat}

theorem count_le (h : FirstMost tally holder) : ∀ e ∈ tally, e.2 ≤ holder.2 := by
  obtain ⟨before, after, rfl, hbefore, hafter⟩ := h
  intro e he
  rcases List.mem_append.mp he with hmem | hmem
  · exact Nat.le_of_lt (hbefore e hmem)
  · rcases List.mem_cons.mp hmem with rfl | hmem
    · exact Nat.le_refl _
    · exact hafter e hmem

/-- A greater count takes the lead. -/
theorem overtaken (h : FirstMost tally holder) (hless : holder.2 < entry.2) :
    FirstMost (tally ++ [entry]) entry :=
  ⟨tally, [], rfl, fun e he => Nat.lt_of_le_of_lt (h.count_le e he) hless, by simp⟩

/-- A count that is not greater leaves the lead as it is. -/
theorem upheld (h : FirstMost tally holder) (hless : ¬holder.2 < entry.2) :
    FirstMost (tally ++ [entry]) holder := by
  obtain ⟨before, after, rfl, hbefore, hafter⟩ := h
  refine ⟨before, after ++ [entry], by simp, hbefore, ?_⟩
  intro e he
  rcases List.mem_append.mp he with hmem | hmem
  · exact hafter e hmem
  · rw [List.mem_singleton.mp hmem]
    exact Nat.not_lt.mp hless

end FirstMost

/-- The lead after all entries is that of the first with the greatest count. -/
theorem leader?_spec (tally : List (String × Nat)) :
    match leader? tally with
    | none => tally = []
    | some entry => FirstMost tally entry := by
  induction tally using List.reverseRecOn with
  | nil => rfl
  | append_singleton tally entry ih =>
      have hstep : leader? (tally ++ [entry]) = lead (leader? tally) entry := by
        simp [leader?]
      rw [hstep]
      cases hleader : leader? tally with
      | none =>
          -- nothing stood before, so the entry leads alone
          rw [hleader] at ih
          subst ih
          exact ⟨[], [], rfl, by simp, by simp⟩
      | some holder =>
          rw [hleader] at ih
          by_cases hless : holder.2 < entry.2
          · simpa only [lead, if_pos hless] using ih.overtaken hless
          · simpa only [lead, if_neg hless] using ih.upheld hless

/-! ## The vote -/

namespace Designation

/-- The designation that wins the vote: none occurs more often, and none that occurs as often
does so earlier. -/
structure WinsVote (ds : List Designation) (d : Designation) : Prop where
  held : d ∈ ds
  most : ∀ e ∈ ds, ds.count e ≤ ds.count d
  earliest : ∀ e ∈ ds, ds.count e = ds.count d → ds.idxOf d ≤ ds.idxOf e

variable {ds ds' : List Designation} {d e : Designation}

/-- One designation wins. -/
theorem WinsVote.unique (hd : WinsVote ds d) (he : WinsVote ds e) : d = e := by
  have hcount : ds.count d = ds.count e :=
    Nat.le_antisymm (he.most d hd.held) (hd.most e he.held)
  have hplace : ds.idxOf d = ds.idxOf e :=
    Nat.le_antisymm (hd.earliest e he.held hcount.symm) (he.earliest d hd.held hcount)
  exact (List.idxOf_inj hd.held).mp hplace

/-- The lead in the tally wins the vote. -/
theorem winsVote_of_firstMost {tally : List (String × Nat)} (h : Tallies ds tally)
    {entry : String × Nat} (hlead : FirstMost tally entry) : WinsVote ds ⟨entry.1⟩ := by
  have hleast := hlead.count_le
  obtain ⟨before, after, rfl, hbefore, hafter⟩ := hlead
  obtain ⟨hheld, hvotes⟩ := (h.mem_iff entry.1 entry.2).mp (by simp)
  rw [hvotes] at hleast hbefore
  have hentry : ∀ e ∈ ds, (e.name, ds.count e) ∈ before ++ entry :: after := fun e he =>
    (h.mem_iff _ _).mpr ⟨he, rfl⟩
  refine ⟨hheld, fun e he => hleast _ (hentry e he), ?_⟩
  intro e he hcount
  rcases List.mem_append.mp (hentry e he) with hmem | hmem
  · -- the counts before it are less
    exact absurd hcount (Nat.ne_of_lt (hbefore _ hmem))
  · rcases List.mem_cons.mp hmem with hsame | hmem
    · exact Nat.le_of_eq (congrArg (fun name => ds.idxOf ⟨name⟩) (congrArg Prod.fst hsame).symm)
    · -- those behind it occur later
      exact Nat.le_of_lt (h.around.2 _ (List.mem_map_of_mem hmem))

theorem aggregate?_eq_none_iff : aggregate? ds = none ↔ ds = [] := by
  constructor
  · intro h
    have hspec := leader?_spec (nameTally ds)
    rw [Option.map_eq_none_iff.mp h] at hspec
    refine List.eq_nil_iff_forall_not_mem.mpr fun d hd => ?_
    have hentry := ((tallies_nameTally ds).mem_iff d.name _).mpr ⟨hd, rfl⟩
    simp [show nameTally ds = [] from hspec] at hentry
  · rintro rfl
    rfl

/-- **The elected designation** is the one that wins the vote. -/
theorem aggregate?_eq_some_iff : aggregate? ds = some d ↔ WinsVote ds d := by
  have hwins : ∀ e, aggregate? ds = some e → WinsVote ds e := by
    intro e he
    obtain ⟨entry, hentry, rfl⟩ := Option.map_eq_some_iff.mp he
    have hspec := leader?_spec (nameTally ds)
    rw [hentry] at hspec
    exact winsVote_of_firstMost (tallies_nameTally ds) hspec
  refine ⟨hwins d, fun h => ?_⟩
  -- something is elected, and only one designation wins
  cases hresult : aggregate? ds with
  | none =>
      rw [aggregate?_eq_none_iff.mp hresult] at h
      cases h.held
  | some e => rw [(hwins e hresult).unique h]

/-- One that occurs more often than all others wins in any order. -/
theorem winsVote_of_unique (hd : d ∈ ds) (hmost : ∀ e ∈ ds, e ≠ d → ds.count e < ds.count d)
    (hperm : ds'.Perm ds) : WinsVote ds' d := by
  have hless : ∀ e ∈ ds', e ≠ d → ds'.count e < ds'.count d := by
    intro e he hne
    rw [hperm.count_eq, hperm.count_eq]
    exact hmost e (hperm.mem_iff.mp he) hne
  refine ⟨hperm.mem_iff.mpr hd, fun e he => ?_, fun e he hcount => ?_⟩
  · rcases eq_or_ne e d with rfl | hne
    · exact Nat.le_refl _
    · exact Nat.le_of_lt (hless e he hne)
  · rcases eq_or_ne e d with rfl | hne
    · exact Nat.le_refl _
    · exact absurd hcount (Nat.ne_of_lt (hless e he hne))

/-- **Majority.** Nothing is elected from nothing, and else the designation that occurs most
often, the first of several; if there is only one such, the order of the designations does not
matter. The elected designation stands for every reference object that holds these designations,
whatever other data it holds and wherever they stand. -/
theorem majority_vote (ds : List Designation) :
    (aggregate? ds = none ↔ ds = []) ∧
      (∀ d, aggregate? ds = some d ↔ WinsVote ds d) ∧
      ((∃ d ∈ ds, ∀ e ∈ ds, e ≠ d → ds.count e < ds.count d) →
        ∀ ds' : List Designation, ds'.Perm ds → aggregate? ds' = aggregate? ds) ∧
      ∀ o : ReferenceObject, Holdings.designations o = ds →
        Holdings.designation? o = aggregate? ds ∧
          o.combined? .designation = (aggregate? ds).map .designation ∧
          Datum.aggregate (Holdings.ofFamily o .designation) = .ok (o.combined? .designation) := by
  refine ⟨aggregate?_eq_none_iff, fun d => aggregate?_eq_some_iff, ?_, ?_⟩
  · rintro ⟨d, hd, hmost⟩ ds' hperm
    rw [aggregate?_eq_some_iff.mpr (winsVote_of_unique hd hmost hperm),
      aggregate?_eq_some_iff.mpr (winsVote_of_unique hd hmost (.refl ds))]
  · rintro o rfl
    exact ⟨o.designation?_eq, o.combined?_designation, o.aggregate_ofFamily _⟩

/-- Votes for two names, between which other data stand: the name in the lead is overtaken by the
last vote, and in the opposite order the same name is elected. -/
theorem majority_vote_interleaved :
    let ds : List Designation := [⟨"NGC 598"⟩, ⟨"M33"⟩, ⟨"NGC 598"⟩, ⟨"M33"⟩, ⟨"M33"⟩]
    let o : ReferenceObject := ⟨5818, [.pgc ⟨5818⟩, .designation ⟨"NGC 598"⟩,
      .designation ⟨"M33"⟩, .redshift ⟨-179.0, none⟩, .designation ⟨"NGC 598"⟩,
      .designation ⟨"M33"⟩, .pgc ⟨5818⟩, .designation ⟨"M33"⟩]⟩
    (∃ d ∈ ds, ∀ e ∈ ds, e ≠ d → ds.count e < ds.count d) ∧ ds.reverse.Perm ds ∧
      Holdings.designations o = ds ∧ aggregate? ds.reverse = aggregate? ds ∧
      Holdings.designation? o = some ⟨"M33"⟩ := by
  intro ds o
  have hunique : ∃ d ∈ ds, ∀ e ∈ ds, e ≠ d → ds.count e < ds.count d := ⟨⟨"M33"⟩, by decide⟩
  have hperm : ds.reverse.Perm ds := List.reverse_perm ds
  refine ⟨hunique, hperm, rfl, (majority_vote ds).2.2.1 hunique _ hperm, ?_⟩
  rw [((majority_vote ds).2.2.2 o rfl).1]
  decide

end Designation

end SkyCatalog
