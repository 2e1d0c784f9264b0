import SkyCatalog.Crossmatch.Identification
import SkyCatalog.Proofs.Keyed

/-!
# Records do not see each other

All searches of a batch of records are made at once and what they find is shared out
afterwards. Here the candidates for a record are defined from its own searches alone
(`candidates`), and so is its outcome (`outcomeOf`). For records of which no two have
the same identifier, `identify_eq` says that a batch gives every record this outcome.
-/

namespace SkyCatalog

/-- Restricting an object to all families keeps it. -/
theorem ReferenceObject.restrictTo_all (o : ReferenceObject) : o.restrictTo Family.all = o := by
  have hall : ∀ d ∈ o.data, Family.all.contains d.family = true := by
    intro d _
    cases d.family <;> decide
  cases o
  simpa [restrictTo] using hall

namespace Identification

variable (i : Identification) (catalogue : List ReferenceObject)

/-! ## The candidates for one record -/

/-- What a search gives: the first objects of the catalogue that it looks for. -/
def found (s : Search) : List ReferenceObject :=
  (catalogue.filter fun o => s.accepts o).take i.candidateLimit

/-- What the searches of a record give, one search after the other. -/
def pool (r : Record) : List ReferenceObject :=
  (i.searches r).flatMap (i.found catalogue)

/-- The first object of every identifier. -/
def firstOfEach : List ReferenceObject → List ReferenceObject
  | [] => []
  | o :: rest => o :: (firstOfEach rest).filter (·.pgc ≠ o.pgc)

/-- The candidates for a record, in ascending order of their identifiers. -/
def candidates (r : Record) : List ReferenceObject :=
  (firstOfEach (i.pool catalogue r)).mergeSort fun a b => a.pgc ≤ b.pgc

/-- The outcome of a record that is looked at on its own. -/
def outcomeOf (r : Record) : Outcome :=
  i.solver.solve ((i.candidates catalogue r).map fun o => (o, i.matcher.score r o))

theorem mem_firstOfEach {o : ReferenceObject} {pool : List ReferenceObject} :
    o ∈ firstOfEach pool ↔ pool.find? (·.pgc = o.pgc) = some o := by
  induction pool with
  | nil => simp [firstOfEach]
  | cons head rest ih =>
      rw [firstOfEach, List.mem_cons, List.mem_filter, ih, List.find?_cons]
      by_cases h : head.pgc = o.pgc
      · simp only [h, ne_eq, not_true_eq_false, decide_false, decide_true, Bool.false_eq_true,
          and_false, or_false, Option.some.injEq]
        exact eq_comm
      · have hne : o ≠ head := fun heq => h (by rw [heq])
        have hpgc : o.pgc ≠ head.pgc := Ne.symm h
        simp only [decide_eq_false h, decide_eq_true hpgc, hne, and_true, false_or]

theorem pairwise_firstOfEach (pool : List ReferenceObject) :
    (firstOfEach pool).Pairwise fun a b => a.pgc ≠ b.pgc := by
  induction pool with
  | nil => exact .nil
  | cons head rest ih =>
      refine List.pairwise_cons.mpr ⟨fun o ho => ?_, ih.filter _⟩
      have hne : o.pgc ≠ head.pgc := by simpa using (List.mem_filter.mp ho).2
      exact hne.symm

/-- A candidate is the first object of its identifier among those found. -/
theorem mem_candidates {r : Record} {o : ReferenceObject} :
    o ∈ i.candidates catalogue r ↔ (i.pool catalogue r).find? (·.pgc = o.pgc) = some o := by
  rw [candidates, List.mem_mergeSort, mem_firstOfEach]

/-- The identifiers of the candidates ascend strictly. -/
theorem pairwise_candidates (r : Record) :
    (i.candidates catalogue r).Pairwise fun a b => a.pgc < b.pgc := by
  have hle : (i.candidates catalogue r).Pairwise fun a b => a.pgc ≤ b.pgc := by
    refine (List.pairwise_mergeSort ?_ ?_ _).imp fun h => by simpa using h
    · intro a b c hab hbc
      simp only [decide_eq_true_eq] at hab hbc ⊢
      exact Int.le_trans hab hbc
    · intro a b
      simpa using Int.le_total a.pgc b.pgc
  have hne : (i.candidates catalogue r).Pairwise fun a b => a.pgc ≠ b.pgc :=
    (List.mergeSort_perm _ _).symm.pairwise (pairwise_firstOfEach _) fun h => h.symm
  exact (hle.and hne).imp fun h => Int.lt_iff_le_and_ne.mpr h

/-! ## What a batch of searches gives -/

/-- No two searches of a record serve the same aspect. -/
theorem pairwise_searches (r : Record) :
    (i.searches r).Pairwise fun a b => a.aspect ≠ b.aspect := by
  unfold searches
  cases Holdings.designation? r <;> cases Holdings.position? r <;>
    simp [Search.aspect]

/-- The searches of records without a common identifier have keys of their own. -/
theorem nodup_searchKeys {records : List Record} (h : (records.map (·.id)).Nodup) :
    ((records.flatMap fun r => (i.searches r).map fun s => (s.key r.id, s)).map (·.1)).Nodup := by
  rw [List.map_flatMap, List.nodup_flatMap]
  constructor
  · intro r _
    rw [List.map_map, List.Nodup, List.pairwise_map]
    exact (i.pairwise_searches r).imp fun hne heq => hne (congrArg SearchKey.aspect heq)
  · -- keys of different records differ in the record
    refine (List.pairwise_map.mp h).imp fun {a b} hne => ?_
    intro key ha hb
    obtain ⟨s, -, rfl⟩ := List.mem_map.mp (by simpa using ha)
    obtain ⟨t, -, heq⟩ := List.mem_map.mp (by simpa using hb)
    exact hne (congrArg SearchKey.record heq).symm

/-- A search of a record is found by its aspect. -/
theorem find?_aspect {r : Record} {s : Search} (h : s ∈ i.searches r) :
    (i.searches r).find? (·.aspect = s.aspect) = some s := by
  unfold searches at h ⊢
  cases hname : Holdings.designation? r <;> cases hplace : Holdings.position? r <;>
    simp only [hname, hplace] at h ⊢ <;> grind [Search.aspect]

/-- Under its own key a record finds its own search again. -/
theorem get?_batchSearches {records : List Record} (h : (records.map (·.id)).Nodup)
    {r : Record} (hr : r ∈ records) (aspect : Aspect) :
    (i.batchSearches records).get? ⟨r.id, aspect⟩ =
      (i.searches r).find? (·.aspect = aspect) := by
  refine Option.ext fun s => ?_
  rw [batchSearches, Keyed.get?_ofList_eq_some_iff (i.nodup_searchKeys h)]
  constructor
  · intro hmem
    -- the key tells the record, and so the search is one of its own
    obtain ⟨q, hq, t, ht, heq⟩ : ∃ q ∈ records, ∃ t ∈ i.searches q,
        (t.key q.id, t) = ((⟨r.id, aspect⟩ : SearchKey), s) := by
      simpa [List.mem_flatMap] using hmem
    obtain ⟨hkey, rfl⟩ := Prod.mk.inj heq
    obtain rfl : q = r := List.inj_on_of_nodup_map h hq hr (congrArg SearchKey.record hkey)
    obtain rfl : t.aspect = aspect := congrArg SearchKey.aspect hkey
    exact i.find?_aspect ht
  · intro hfind
    have haspect : s.aspect = aspect := by simpa using List.find?_some hfind
    refine List.mem_flatMap.mpr ⟨r, hr, List.mem_map.mpr ⟨s, List.mem_of_find?_eq_some hfind, ?_⟩⟩
    rw [Search.key, haspect]

theorem get?_runAll (families : List Family) (page : Search.Page)
    (searches : Keyed SearchKey Search) (key : SearchKey) :
    (Search.runAll catalogue families page searches).get? key =
      ((searches.get? key).map (·.run catalogue families page)).filter (!·.isEmpty) := by
  rw [Search.runAll, Keyed.get?_filter, Keyed.get?_mapValues]

theorem run_eq_found (s : Search) :
    s.run catalogue Family.all ⟨0, i.candidateLimit⟩ = i.found catalogue s := by
  simp [Search.run, found, ReferenceObject.restrictTo_all]

/-- The searches of a record come in the order of their keys. -/
theorem compare_name_position (id : String) :
    compare (⟨id, .name⟩ : SearchKey) ⟨id, .position⟩ = .lt := by
  have hid : compareOn SearchKey.record ⟨id, .name⟩ ⟨id, .position⟩ = .eq :=
    Std.ReflCmp.compare_self
  simp only [compare, compareLex, hid]
  rfl

/-- What was found under the keys of a record, the search for its name first. -/
theorem values_filter_record (found : Keyed SearchKey (List ReferenceObject)) (id : String) :
    (found.filter fun key _ => key.record == id).values =
      (found.get? ⟨id, .name⟩).toList ++ (found.get? ⟨id, .position⟩).toList := by
  -- the entries of the record, at most one for each aspect
  let entry (aspect : Aspect) : List (SearchKey × List ReferenceObject) :=
    ((found.get? ⟨id, aspect⟩).map fun objects => ((⟨id, aspect⟩ : SearchKey), objects)).toList
  have hascending : (entry .name ++ entry .position).Pairwise
      fun a b => compare a.1 b.1 = .lt := by
    have hlt := compare_name_position id
    simp only [entry]
    cases found.get? ⟨id, .name⟩ <;> cases found.get? ⟨id, .position⟩ <;> simp [hlt]
  have heq : (found.filter fun key _ => key.record == id) = ⟨_, hascending⟩ := by
    refine Keyed.ext_mem fun e => ?_
    obtain ⟨⟨record, aspect⟩, objects⟩ := e
    have hmem : (⟨record, aspect⟩, objects) ∈ (found.filter fun key _ => key.record == id).entries ↔
        found.get? ⟨record, aspect⟩ = some objects ∧ record = id := by
      rw [← Keyed.mem_entries_iff]
      simp [Keyed.filter]
    rw [hmem]
    cases aspect <;> simp only [entry, List.mem_append, Option.mem_toList,
      Option.map_eq_some_iff, Prod.mk.injEq, SearchKey.mk.injEq] <;> grind
  rw [heq]
  simp only [Keyed.values, entry, List.map_append, ← Option.toList_map, Option.map_map]
  simp [Function.comp_def]

/-- What the searches of a batch found for a record is what its own searches give. -/
theorem flatten_values_eq_pool {records : List Record} (h : (records.map (·.id)).Nodup)
    {r : Record} (hr : r ∈ records) :
    ((Search.runAll catalogue Family.all ⟨0, i.candidateLimit⟩ (i.batchSearches records)).filter
      fun key _ => key.record == r.id).values.flatten = i.pool catalogue r := by
  have hflat : ∀ o : Option (List ReferenceObject),
      (o.filter (!·.isEmpty)).toList.flatten = o.toList.flatten := by
    rintro (_ | _ | ⟨first, rest⟩) <;> simp [Option.filter]
  -- a search that finds nothing is left out of the map, and gives nothing here either
  rw [values_filter_record, List.flatten_append]
  simp only [get?_runAll, hflat, i.get?_batchSearches h hr, i.run_eq_found]
  unfold pool searches
  cases Holdings.designation? r <;> cases Holdings.position? r <;> simp [Search.aspect]

/-! ## Pooling what was found -/

/-- After pooling, an identifier has the object it had, or else the first one added. -/
theorem get?_foldl_addCandidate (pool : List ReferenceObject) (m : Keyed Int ReferenceObject)
    (pgc : Int) :
    (pool.foldl addCandidate m).get? pgc = (m.get? pgc).or (pool.find? (·.pgc = pgc)) := by
  -- by induction on the objects: one that is added is read if nothing was there before
  induction pool generalizing m with
  | nil => simp
  | cons o rest ih =>
      have hadd : (addCandidate m o).get? pgc =
          (m.get? pgc).or (if o.pgc = pgc then some o else none) := by
        unfold addCandidate Keyed.contains
        by_cases h : o.pgc = pgc
        · subst h
          cases hget : m.get? o.pgc <;> simp [hget, Keyed.get?_put]
        · have hne : compare pgc o.pgc ≠ .eq := fun heq => h (Int.compare_eq_eq.mp heq).symm
          rw [if_neg h, Option.or_none]
          split
          · rfl
          · simp [Keyed.get?_put, hne]
      rw [List.foldl_cons, ih, hadd, Option.or_assoc, List.find?_cons]
      by_cases h : o.pgc = pgc <;> simp [h]

/-- The values of pooled objects are the first objects of their identifiers, in ascending
order. -/
theorem values_foldl_addCandidate (r : Record) :
    ((i.pool catalogue r).foldl addCandidate .empty).values = i.candidates catalogue r := by
  let pooled := (i.pool catalogue r).foldl addCandidate .empty
  have hget : ∀ pgc, pooled.get? pgc = (i.pool catalogue r).find? (·.pgc = pgc) := by
    intro pgc
    simp [pooled, get?_foldl_addCandidate]
  have hkey : ∀ e ∈ pooled.entries, e.2.pgc = e.1 := by
    intro e he
    have hfind := hget e.1
    rw [Keyed.mem_entries_iff.mp he] at hfind
    simpa using List.find?_some hfind.symm
  have hirrefl : Std.Irrefl fun a b : ReferenceObject => a.pgc < b.pgc := ⟨fun a => Int.lt_irrefl _⟩
  have hantisymm : Std.Antisymm fun a b : ReferenceObject => a.pgc < b.pgc :=
    ⟨fun a b hab hba => absurd hba (Int.lt_asymm hab)⟩
  have hascending : pooled.values.Pairwise fun a b => a.pgc < b.pgc := by
    refine List.pairwise_map.mpr (pooled.ascending.imp_of_mem fun ha hb hlt => ?_)
    rw [hkey _ ha, hkey _ hb]
    exact Int.compare_eq_lt.mp hlt
  -- both lists ascend strictly, so it is enough that they have the same members
  refine hascending.eq_of_mem_iff (i.pairwise_candidates catalogue r) fun o => ?_
  rw [mem_candidates, ← hget, ← Keyed.mem_entries_iff]
  constructor
  · intro ho
    obtain ⟨e, he, rfl⟩ := List.mem_map.mp ho
    rwa [hkey e he]
  · intro ho
    exact List.mem_map.mpr ⟨_, ho, rfl⟩

/-! ## Deciding on a batch -/

/-- Where no identifier stands twice, every record is served. -/
theorem decideAll_eq_map (found : Keyed SearchKey (List ReferenceObject)) {records : List Record}
    (h : (records.map (·.id)).Nodup) {served : List String}
    (hserved : ∀ r ∈ records, r.id ∉ served) :
    i.decideAll found served records =
      records.map fun r => (r.id, i.decide r (candidatesFor found r.id)) := by
  -- by induction on the records; none of those served comes again
  induction records generalizing served with
  | nil => rfl
  | cons r rest ih =>
      obtain ⟨hr, hrest⟩ := List.nodup_cons.mp h
      have hfirst : served.contains r.id = false := by
        simpa using hserved r List.mem_cons_self
      have hlater : ∀ q ∈ rest, q.id ∉ r.id :: served := by
        intro q hq hmem
        rcases List.mem_cons.mp hmem with heq | hold
        · exact hr (List.mem_map.mpr ⟨q, hq, heq⟩)
        · exact hserved q (List.mem_cons_of_mem _ hq) hold
      rw [decideAll, ih hrest hlater, hfirst]
      rfl

/-- A batch of records without a common identifier gives every record the outcome that
it has on its own. -/
theorem identify_eq {records : List Record} (h : (records.map (·.id)).Nodup) :
    i.identify catalogue records =
      .ofList (records.map fun r => (r.id, i.outcomeOf catalogue r)) := by
  rw [identify, i.decideAll_eq_map _ h fun r _ => List.not_mem_nil]
  refine congrArg Keyed.ofList (List.map_congr_left fun r hr => ?_)
  rw [candidatesFor, i.flatten_values_eq_pool catalogue h hr, values_foldl_addCandidate]
  rfl

theorem get?_identify {records : List Record} (h : (records.map (·.id)).Nodup) {r : Record}
    (hr : r ∈ records) :
    (i.identify catalogue records).get? r.id = some (i.outcomeOf catalogue r) := by
  have hkeys : ((records.map fun r => (r.id, i.outcomeOf catalogue r)).map (·.1)).Nodup := by
    simpa [Function.comp_def] using h
  rw [i.identify_eq catalogue h, Keyed.get?_ofList_eq_some_iff hkeys]
  exact List.mem_map_of_mem hr

/-- **A batch gives every record the outcome that it has on its own.** The outcomes are
those of the records of the batch and of no other. Each is decided on the candidates that
the searches of the record give, its name before its position: of every identifier the
first object found, in strictly ascending order. So it is the outcome of a batch that
holds the record alone. -/
theorem identify_independent {records : List Record} (h : (records.map (·.id)).Nodup) :
    (∀ id, id ∈ (i.identify catalogue records).keys ↔ ∃ r ∈ records, r.id = id) ∧
      ∀ r ∈ records,
        (i.identify catalogue records).get? r.id = some (i.solver.solve
          ((i.candidates catalogue r).map fun o => (o, i.matcher.score r o))) ∧
        ((i.candidates catalogue r).map (·.pgc)).Pairwise (· < ·) ∧
        (∀ o, o ∈ i.candidates catalogue r ↔
          (i.pool catalogue r).find? (·.pgc = o.pgc) = some o) ∧
        (i.identify catalogue records).get? r.id = (i.identify catalogue [r]).get? r.id := by
  refine ⟨fun id => ?_, fun r hr => ⟨?_, ?_, ?_, ?_⟩⟩
  · rw [Keyed.mem_keys_iff, i.identify_eq catalogue h, ← Option.ne_none_iff_isSome, ne_eq,
      Keyed.get?_ofList_eq_none_iff, not_not]
    simp
  · exact i.get?_identify catalogue h hr
  · exact List.pairwise_map.mpr (i.pairwise_candidates catalogue r)
  · intro o
    exact i.mem_candidates catalogue
  · have halone : ([r].map (·.id)).Nodup := List.nodup_singleton r.id
    rw [i.get?_identify catalogue h hr, i.get?_identify catalogue halone List.mem_cons_self]

/-- Two records of one name that two objects carry, one of them listed twice. -/
theorem identify_independent_namesakes :
    let named : List Datum := [.designation ⟨"M33"⟩]
    let catalogue : List ReferenceObject := [⟨9, named⟩, ⟨4, named⟩, ⟨9, named⟩]
    let i : Identification := ⟨.constant 1.0, .onlyOneAbove 0.5, 10.0, 3⟩
    (([⟨"a", named⟩, ⟨"b", named⟩] : List Record).map (·.id)).Nodup ∧
      (i.identify catalogue [⟨"a", named⟩, ⟨"b", named⟩]).get? "b" =
        (i.identify catalogue [⟨"b", named⟩]).get? "b" ∧
      ((i.identify catalogue [⟨"b", named⟩]).get? "b").map Outcome.text =
        some "collision([4, 9])" :=
  ⟨by decide, ((identify_independent _ _ (by decide)).2 ⟨"b", _⟩ (by simp)).2.2.2,
    by decide +kernel⟩

end Identification

end SkyCatalog
