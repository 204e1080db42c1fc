import Kouetsu.Exclusion.Basic
import Kouetsu.Token.Basic
/-!
# Tokens outside excluded ranges

A token that overlaps an excluded range is left out.  Ranges without a character exclude
nothing.
-/

namespace Kouetsu

def Token.isExcluded (t : Token) (ranges : List ExcludedRange) : Bool :=
  ranges.any fun r => r.start < r.stop && r.overlaps t.start t.stop

def keepTokens (tokens : List Token) (ranges : List ExcludedRange) : List Token :=
  tokens.filter (!·.isExcluded ranges)

end Kouetsu
