/-! Character classes as unions of code point ranges.

Every table of this folder lists the ranges of one property above ASCII, in
increasing order; the ASCII part of a property is spelled out where the property
is defined, so reasoning about ASCII text never looks at a table. -/
namespace GraphLanguages.Unicode

/-- A closed interval of code points. -/
abbrev Range := Nat × Nat

def Range.holds (r : Range) (code : Nat) : Bool :=
  r.1 ≤ code && code ≤ r.2

/-- Does some range of the table hold the character? -/
def inTable (table : List Range) (c : Char) : Bool :=
  table.any fun r => r.holds c.toNat

def isAscii (c : Char) : Bool :=
  c.toNat < 128

end GraphLanguages.Unicode
