/-! The property White_Space. It is small enough to be spelled out. -/
namespace GraphLanguages.Unicode

def isSpace (c : Char) : Bool :=
  let code := c.toNat
  (9 ≤ code && code ≤ 13) || code = 32 || code = 133 || code = 160 || code = 5760
    || (8192 ≤ code && code ≤ 8202) || code = 8232 || code = 8233 || code = 8239
    || code = 8287 || code = 12288

end GraphLanguages.Unicode
