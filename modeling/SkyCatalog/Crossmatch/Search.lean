import SkyCatalog.Holdings

/-!
# Searching the reference catalogue

A search finds the reference objects that carry a name, or those that lie in a cone
around a position. Searches are made in batches: each has a key, and each gives up to
a number of objects in the order of the catalogue.
-/

namespace SkyCatalog

/-- What a search looks for, with angles in degrees and the radius in arcseconds. -/
inductive Search where
  | name (wanted : String)
  | cone (ra dec radius : Float)

/-- The aspect of a record that a search serves. -/
inductive Aspect where
  | name
  | position
deriving DecidableEq, Repr

namespace Aspect

/-- The place of an aspect in the order. -/
def rank : Aspect → Nat
  | .name => 0
  | .position => 1

theorem rank_injective {a b : Aspect} (h : a.rank = b.rank) : a = b := by
  cases a <;> cases b <;> simp [rank] at h <;> rfl

instance : Ord Aspect := ⟨compareOn rank⟩

instance : Std.TransOrd Aspect :=
  inferInstanceAs (Std.TransCmp (compareOn rank))

instance : Std.LawfulEqOrd Aspect where
  compare_self {a} := by cases a <;> decide
  eq_of_compare h := rank_injective (Nat.compare_eq_eq.mp h)

end Aspect

/-- The key of a search: the record and the aspect of it that it serves. -/
structure SearchKey where
  record : String
  aspect : Aspect
deriving DecidableEq, Repr

instance : Ord SearchKey := ⟨compareLex (compareOn (·.record)) (compareOn (·.aspect))⟩

instance : Std.TransOrd SearchKey :=
  inferInstanceAs (Std.TransCmp (compareLex (compareOn SearchKey.record) (compareOn (·.aspect))))

instance : Std.LawfulEqOrd SearchKey where
  compare_self {_} := Std.ReflCmp.compare_self
  eq_of_compare {a b} h := by
    have hboth := compareLex_eq_eq.mp h
    cases a
    cases b
    have hrecord := Std.LawfulEqOrd.eq_of_compare hboth.1
    have haspect := Std.LawfulEqOrd.eq_of_compare hboth.2
    simp only at hrecord haspect
    rw [hrecord, haspect]

namespace Search

/-- The aspect of a record that the search serves. -/
def aspect : Search → Aspect
  | .name _ => .name
  | .cone .. => .position

/-- The key of the search when it is made for a record. -/
def key (s : Search) (record : String) : SearchKey :=
  ⟨record, s.aspect⟩

/-- Is an object one that the search looks for? The case of ASCII letters in names
does not matter. -/
def accepts (o : ReferenceObject) : Search → Bool
  | .name wanted =>
      (Holdings.designations o).any fun d => Text.eqIgnoringCase d.name wanted
  | .cone ra dec radius =>
      (Holdings.positions o).any fun p => Sky.separation p.ra p.dec ra dec ≤ radius

/-- The part of what a search finds that is asked for. -/
structure Page where
  skip : Nat
  take : Nat
deriving DecidableEq, Repr

/-- The objects that a search gives, with the data of some families only. -/
def run (catalogue : List ReferenceObject) (families : List Family) (page : Page)
    (s : Search) : List ReferenceObject :=
  (((catalogue.filter fun o => s.accepts o).drop page.skip).take page.take).map
    (·.restrictTo families)

/-- Make a batch of searches; those that find nothing are left out. -/
def runAll (catalogue : List ReferenceObject) (families : List Family) (page : Page)
    (searches : Keyed SearchKey Search) : Keyed SearchKey (List ReferenceObject) :=
  (searches.mapValues fun _ s => s.run catalogue families page).filter
    fun _ found => !found.isEmpty

end Search

end SkyCatalog
