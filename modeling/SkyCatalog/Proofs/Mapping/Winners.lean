import Mathlib.Data.List.Induction
import SkyCatalog.Mapping.Plan
import SkyCatalog.Proofs.Keyed

/-!
# The winner of a slot

A column is offered for a slot with the priority of any rule for the slot that accepts it
(`Offered`). The winner leads all offers: none has a greater priority, and none of the same
priority stands in an earlier column (`Leads`, `Wins`).

The offers contest their slots one after the other, in the order of the columns. After any
number of them the holder of a slot leads those made so far (`contested_of_sorted`), so that in
the end the holders are the winners (`get?_winners_eq_some_iff`). Two consequences are stated
for whole lists of rules and whole tables: the order of the rules does not matter
(`winners_perm`), nor does the unit of a column that wins nothing (`winners_withUnit`).
-/

namespace SkyCatalog

/-! ## Tables that differ in a unit -/

/-- A column with another unit. -/
def Column.withUnit (c : Column) (unit : Option String) : Column :=
  { c with unit := unit }

/-- A table with another unit for the column at a place. -/
def Table.withUnit (t : Table) (i : Nat) (unit : Option String) : Table :=
  { t with columns := t.columns.modify i (·.withUnit unit) }

theorem Table.getElem?_withUnit (t : Table) (i : Nat) (unit : Option String) (k : Nat) :
    (t.withUnit i unit).columns[k]? =
      t.columns[k]?.map fun c => if i = k then c.withUnit unit else c := by
  simp only [Table.withUnit, List.getElem?_modify]
  rfl

namespace ColumnFilter

mutual

/-- A filter looks at the name of the table and at the name and the descriptor of the
column. -/
theorem accepts_congr {t t' : Table} {c c' : Column} (htable : t'.name = t.name)
    (hname : c'.name = c.name) (hucd : c'.ucd = c.ucd) :
    ∀ filter, accepts t' c' filter = accepts t c filter
  | .ucd tag => by simp only [accepts, hucd]
  | .columnName name => by simp only [accepts, hname]
  | .tableName name => by simp only [accepts, htable]
  | .all filters => by
      simp only [accepts]
      exact allAccept_congr htable hname hucd filters

theorem allAccept_congr {t t' : Table} {c c' : Column} (htable : t'.name = t.name)
    (hname : c'.name = c.name) (hucd : c'.ucd = c.ucd) :
    ∀ filters, allAccept t' c' filters = allAccept t c filters
  | [] => rfl
  | filter :: rest => by
      simp only [allAccept, accepts_congr htable hname hucd filter,
        allAccept_congr htable hname hucd rest]

end

end ColumnFilter

namespace Plan

/-! ## Offers and winners -/

/-- The column at a place is offered for a slot: a rule for the slot accepts the column and
gives the offer its priority. -/
def Offered (rules : List Rule) (t : Table) (slot : Slot) (i : Nat) (c : Candidate) : Prop :=
  t.columns[i]? = some c.column ∧
    ∃ rule ∈ rules, rule.slot = slot ∧ rule.filter.accepts t c.column = true ∧
      rule.priority = c.priority

/-- Of the offers, the one with the greatest priority, the earliest column among equals. -/
structure Leads (among : Nat → Candidate → Prop) (i : Nat) (c : Candidate) : Prop where
  offered : among i c
  greatest : ∀ i' c', among i' c' → c'.priority ≤ c.priority
  earliest : ∀ i' c', among i' c' → c'.priority = c.priority → i ≤ i'

/-- The column at a place wins a slot. -/
def Wins (rules : List Rule) (t : Table) (slot : Slot) (i : Nat) (c : Candidate) : Prop :=
  Leads (Offered rules t slot) i c

/-- A slot has one winner. -/
theorem Wins.unique {rules : List Rule} {t : Table} {slot : Slot} {i i' : Nat}
    {c c' : Candidate} (h : Wins rules t slot i c) (h' : Wins rules t slot i' c') :
    i = i' ∧ c = c' := by
  have hpriority : c.priority = c'.priority :=
    Int.le_antisymm (h'.greatest i c h.offered) (h.greatest i' c' h'.offered)
  have hplace : i = i' :=
    Nat.le_antisymm (h.earliest i' c' h'.offered hpriority.symm)
      (h'.earliest i c h.offered hpriority)
  subst hplace
  have hcolumn : c.column = c'.column :=
    Option.some.inj (h.offered.1.symm.trans h'.offered.1)
  cases c
  cases c'
  simp only at hpriority hcolumn
  exact ⟨rfl, by rw [hcolumn, hpriority]⟩

/-! ## The contest -/

section Lead

variable {among : Nat → Candidate → Prop} {place i : Nat} {holder c : Candidate}

/-- Offers with one more. -/
def withOffer (among : Nat → Candidate → Prop) (i : Nat) (c : Candidate) : Nat → Candidate → Prop :=
  fun j d => among j d ∨ j = i ∧ d = c

/-- An offer of a greater priority than all before takes the lead. -/
theorem Leads.overtaken (h : ∀ j d, among j d → d.priority < c.priority) :
    Leads (withOffer among i c) i c := by
  refine ⟨Or.inr ⟨rfl, rfl⟩, ?_, ?_⟩
  · rintro j d (hbefore | ⟨rfl, rfl⟩)
    · exact Int.le_of_lt (h j d hbefore)
    · exact Int.le_refl _
  · rintro j d (hbefore | ⟨rfl, rfl⟩) heq
    · -- none before is of the same priority
      exact absurd heq (Int.ne_of_lt (h j d hbefore))
    · exact Nat.le_refl _

/-- An offer of no greater priority from a later column leaves the lead as it is. -/
theorem Leads.upheld (h : Leads among place holder) (hless : ¬holder.priority < c.priority)
    (hlater : place ≤ i) : Leads (withOffer among i c) place holder := by
  refine ⟨Or.inl h.offered, ?_, ?_⟩
  · rintro j d (hbefore | ⟨rfl, rfl⟩)
    · exact h.greatest j d hbefore
    · exact Int.not_lt.mp hless
  · rintro j d (hbefore | ⟨rfl, rfl⟩) heq
    · exact h.earliest j d hbefore heq
    · exact hlater

end Lead

theorem get?_contest (w : Keyed Slot Candidate) (slot' slot : Slot) (c : Candidate) :
    (contest w (slot', c)).get? slot =
      if slot = slot' then
        match w.get? slot with
        | none => some c
        | some holder => if holder.priority < c.priority then some c else some holder
      else w.get? slot := by
  unfold contest
  by_cases hslot : slot = slot'
  · subst hslot
    cases hget : w.get? slot with
    | none => simp [Keyed.get?_put]
    | some holder =>
        by_cases hless : holder.priority < c.priority
        · simp [hless, Keyed.get?_put]
        · simp [hless, hget]
  · have hother : (w.put slot' c).get? slot = w.get? slot := by
      simp [Keyed.get?_put, hslot]
    cases w.get? slot' with
    | none => simp [hslot, hother]
    | some holder => by_cases hless : holder.priority < c.priority <;> simp [hslot, hless, hother]

/-- The holder of a slot leads the offers for it, and a slot without a holder had none. -/
def Contested (offers : List (Nat × Slot × Candidate)) (w : Keyed Slot Candidate) : Prop :=
  ∀ slot, match w.get? slot with
    | none => ∀ i c, (i, slot, c) ∉ offers
    | some c => ∃ i, Leads (fun i c => (i, slot, c) ∈ offers) i c

/-- One more offer, from a column that is not earlier than those before, leaves the holders
in the lead. -/
theorem Contested.contest {offers : List (Nat × Slot × Candidate)} {w : Keyed Slot Candidate}
    (h : Contested offers w) {i : Nat} {slot : Slot} {c : Candidate}
    (hlast : ∀ e ∈ offers, e.1 ≤ i) :
    Contested (offers ++ [(i, slot, c)]) (Plan.contest w (slot, c)) := by
  intro other
  have hother := h other
  rw [get?_contest]
  by_cases hslot : other = slot
  · subst hslot
    have hmem : ∀ j d, (j, other, d) ∈ offers ++ [(i, other, c)] ↔
        withOffer (fun j d => (j, other, d) ∈ offers) i c j d := by simp [withOffer]
    simp only [hmem, if_true]
    cases hget : w.get? other with
    | none =>
        -- the first offer for the slot
        rw [hget] at hother
        exact ⟨i, Leads.overtaken fun j d hbefore => absurd hbefore (hother j d)⟩
    | some holder =>
        rw [hget] at hother
        obtain ⟨place, hleads⟩ := hother
        by_cases hless : holder.priority < c.priority
        · simp only [hless, if_true]
          exact ⟨i, Leads.overtaken fun j d hbefore =>
            Int.lt_of_le_of_lt (hleads.greatest j d hbefore) hless⟩
        · simp only [hless, if_false]
          exact ⟨place, hleads.upheld hless (hlast _ hleads.offered)⟩
  · have hmem : ∀ j d, (j, other, d) ∈ offers ++ [(i, slot, c)] ↔ (j, other, d) ∈ offers := by
      simp [hslot]
    simpa only [hmem, if_neg hslot] using hother

/-- The holders lead after any number of offers in the order of their columns. -/
theorem contested_of_sorted {offers : List (Nat × Slot × Candidate)}
    (hsorted : offers.Pairwise fun a b => a.1 ≤ b.1) :
    Contested offers ((offers.map (·.2)).foldl contest .empty) := by
  -- by induction from the last offer, which comes from the latest column
  induction offers using List.reverseRecOn with
  | nil => intro slot; simp
  | append_singleton before last ih =>
      obtain ⟨hbefore, -, hlast⟩ := List.pairwise_append.mp hsorted
      rw [List.map_append, List.foldl_append]
      exact (ih hbefore).contest fun e he => hlast e he last (by simp)

/-! ## The winners of a table -/

/-- The offers of a table, each with the place of its column. -/
def placedOffers (rules : List Rule) (t : Table) : List (Nat × Slot × Candidate) :=
  t.columns.zipIdx.flatMap fun e =>
    (rules.filter fun r => r.filter.accepts t e.1).map fun r => (e.2, r.slot, ⟨e.1, r.priority⟩)

theorem map_placedOffers (rules : List Rule) (t : Table) :
    (placedOffers rules t).map (·.2) = offers rules t := by
  have hcolumns := List.zipIdx_map_fst 0 t.columns
  simp only [placedOffers, offers, List.map_flatMap, List.map_map]
  rw [← hcolumns, List.flatMap_map, hcolumns]
  rfl

theorem placedOffers_sorted (rules : List Rule) (t : Table) :
    (placedOffers rules t).Pairwise fun a b => a.1 ≤ b.1 := by
  refine List.pairwise_flatMap.mpr ⟨fun e _ => ?_, ?_⟩
  · -- all offers of one column have its place
    exact List.pairwise_map.mpr (List.pairwise_of_forall fun _ _ => Nat.le_refl _)
  · -- the places of the columns ascend
    have hplaces : (t.columns.zipIdx.map (·.2)).Pairwise (· < ·) := by
      rw [List.zipIdx_map_snd]
      exact List.pairwise_lt_range'
    refine (List.pairwise_map.mp hplaces).imp fun hlt x hx y hy => ?_
    obtain ⟨_, _, rfl⟩ := List.mem_map.mp hx
    obtain ⟨_, _, rfl⟩ := List.mem_map.mp hy
    exact Nat.le_of_lt hlt

theorem mem_placedOffers {rules : List Rule} {t : Table} {slot : Slot} {i : Nat}
    {c : Candidate} : (i, slot, c) ∈ placedOffers rules t ↔ Offered rules t slot i c := by
  simp only [placedOffers, List.mem_flatMap, List.mem_map, List.mem_filter, Offered]
  constructor
  · rintro ⟨⟨column, place⟩, hcolumn, rule, ⟨hrule, haccepts⟩, heq⟩
    cases heq
    exact ⟨List.mem_zipIdx_iff_getElem?.mp hcolumn, rule, hrule, rfl, haccepts, rfl⟩
  · rintro ⟨hcolumn, rule, hrule, rfl, haccepts, hpriority⟩
    refine ⟨(c.column, i), List.mem_zipIdx_iff_getElem?.mpr hcolumn, rule, ⟨hrule, haccepts⟩, ?_⟩
    rw [hpriority]

theorem winners_contested (rules : List Rule) (t : Table) (slot : Slot) :
    match (winners rules t).get? slot with
    | none => ∀ i c, ¬Offered rules t slot i c
    | some c => ∃ i, Wins rules t slot i c := by
  have hcontested := contested_of_sorted (placedOffers_sorted rules t) slot
  rw [map_placedOffers] at hcontested
  simp only [mem_placedOffers] at hcontested
  exact hcontested

/-- A slot is free exactly if no column is offered for it. -/
theorem get?_winners_eq_none_iff {rules : List Rule} {t : Table} {slot : Slot} :
    (winners rules t).get? slot = none ↔ ∀ i c, ¬Offered rules t slot i c := by
  have hcontested := winners_contested rules t slot
  cases hget : (winners rules t).get? slot with
  | none => simpa [hget] using hcontested
  | some c =>
      rw [hget] at hcontested
      obtain ⟨i, hwins⟩ := hcontested
      simp only [reduceCtorEq, false_iff]
      exact fun h => h i c hwins.offered

/-- The holder of a slot is its winner. -/
theorem get?_winners_eq_some_iff {rules : List Rule} {t : Table} {slot : Slot}
    {c : Candidate} :
    (winners rules t).get? slot = some c ↔ ∃ i, Wins rules t slot i c := by
  have hcontested := winners_contested rules t slot
  constructor
  · intro hget
    simpa [hget] using hcontested
  · rintro ⟨i, hwins⟩
    cases hget : (winners rules t).get? slot with
    | none => exact absurd hwins.offered (get?_winners_eq_none_iff.mp hget i c)
    | some holder =>
        rw [hget] at hcontested
        obtain ⟨place, hholder⟩ := hcontested
        rw [(hholder.unique hwins).2]

/-- Tables and rules with the same winners for every slot. -/
theorem winners_ext {rules rules' : List Rule} {t t' : Table}
    (hwins : ∀ slot i c, Wins rules t slot i c → ∃ i', Wins rules' t' slot i' c)
    (hnone : ∀ slot, (∀ i c, ¬Offered rules t slot i c) → ∀ i c, ¬Offered rules' t' slot i c) :
    winners rules' t' = winners rules t := by
  apply Keyed.ext_get?
  intro slot
  cases hget : (winners rules t).get? slot with
  | none => exact get?_winners_eq_none_iff.mpr (hnone slot (get?_winners_eq_none_iff.mp hget))
  | some c =>
      obtain ⟨i, hi⟩ := get?_winners_eq_some_iff.mp hget
      exact get?_winners_eq_some_iff.mpr (hwins slot i c hi)

/-- The order of the rules does not matter. -/
theorem winners_perm {rules rules' : List Rule} (h : rules.Perm rules') (t : Table) :
    winners rules' t = winners rules t := by
  have hoffered : Offered rules' t = Offered rules t := by
    funext slot i c
    simp only [Offered, h.mem_iff]
  refine winners_ext (fun slot i c hwins => ⟨i, ?_⟩) (fun slot hnone => ?_)
  · rwa [Wins, hoffered]
  · rwa [hoffered]

theorem offered_withUnit {rules : List Rule} {t : Table} {slot : Slot} {i k : Nat}
    {unit : Option String} {c' : Candidate} :
    Offered rules (t.withUnit i unit) slot k c' ↔
      ∃ c, Offered rules t slot k c ∧ c'.priority = c.priority ∧
        c'.column = if i = k then c.column.withUnit unit else c.column := by
  have haccepts : ∀ column filter,
      ColumnFilter.accepts (t.withUnit i unit)
          (if i = k then column.withUnit unit else column) filter =
        ColumnFilter.accepts t column filter := by
    intro column filter
    have htable : (t.withUnit i unit).name = t.name := rfl
    refine ColumnFilter.accepts_congr htable ?_ ?_ filter <;> split <;> rfl
  unfold Offered
  rw [Table.getElem?_withUnit]
  constructor
  · rintro ⟨hcolumn, rule, hrule, hslot, haccept, hpriority⟩
    obtain ⟨column, hget, heq⟩ := Option.map_eq_some_iff.mp hcolumn
    rw [← heq, haccepts] at haccept
    exact ⟨⟨column, c'.priority⟩, ⟨hget, rule, hrule, hslot, haccept, hpriority⟩, rfl, heq.symm⟩
  · rintro ⟨c, ⟨hget, rule, hrule, hslot, haccept, hpriority⟩, heq, hcolumn⟩
    refine ⟨by rw [hget, hcolumn]; rfl, rule, hrule, hslot, ?_, hpriority.trans heq.symm⟩
    rw [hcolumn, haccepts]
    exact haccept

/-- The unit of a column that wins nothing does not matter. -/
theorem winners_withUnit {rules : List Rule} {t : Table} {i : Nat} (unit : Option String)
    (h : ∀ slot c, ¬Wins rules t slot i c) :
    winners rules (t.withUnit i unit) = winners rules t := by
  refine winners_ext (fun slot k c hwins => ⟨k, ?_⟩) (fun slot hnone k c' hoffered => ?_)
  · -- a winner is another column, so it is offered as before
    have hk : i ≠ k := fun hik => h slot c (hik ▸ hwins)
    refine ⟨offered_withUnit.mpr ⟨c, hwins.offered, rfl, by rw [if_neg hk]⟩,
      fun k' c' hoffered => ?_, fun k' c' hoffered heq => ?_⟩
    · obtain ⟨before, hbefore, hpriority, -⟩ := offered_withUnit.mp hoffered
      exact hpriority ▸ hwins.greatest k' before hbefore
    · obtain ⟨before, hbefore, hpriority, -⟩ := offered_withUnit.mp hoffered
      exact hwins.earliest k' before hbefore (hpriority.symm.trans heq)
  · obtain ⟨before, hbefore, -⟩ := offered_withUnit.mp hoffered
    exact hnone k before hbefore

end Plan

end SkyCatalog
