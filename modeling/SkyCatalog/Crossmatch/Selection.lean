import SkyCatalog.Holdings
import SkyCatalog.Query.Parser
import SkyCatalog.Settings

/-!
# Selecting reference objects

A search expression selects reference objects. A name selects the objects that carry
it, whatever the case of ASCII letters; an identifier selects its object; a position,
written as two numbers of degrees, selects the objects near it. A value that is not
written as its criterion asks for selects nothing.
-/

namespace SkyCatalog

namespace Query

/-- The right ascension and declination that a text consists of. -/
def readPosition? (s : String) : Option (Float × Float) :=
  match Text.words s with
  | [ra, dec] => do return (← Decimal.readFloat? ra, ← Decimal.readFloat? dec)
  | _ => none

/-- Does an object meet a condition? -/
def Condition.meets (o : ReferenceObject) (c : Condition) : Bool :=
  match c.criterion with
  | .name => (Holdings.designations o).any fun d => Text.eqIgnoringCase d.name (Text.trim c.value)
  | .pgc => Decimal.readInt64? (Text.trim c.value) == some o.pgc
  | .pos =>
      match readPosition? c.value with
      | none => false
      | some (ra, dec) =>
          (Holdings.positions o).any fun p =>
            Sky.separation ra dec p.ra p.dec ≤ defaultSearchRadius

/-- The objects of a catalogue that an expression selects, in order. -/
def Expr.select (e : Expr) (catalogue : List ReferenceObject) : List ReferenceObject :=
  catalogue.filter fun o => e.evaluate (Condition.meets o)

end Query

end SkyCatalog
