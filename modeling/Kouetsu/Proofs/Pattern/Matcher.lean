import Kouetsu.Pattern.Matcher
import Kouetsu.Proofs.Text.Scan
/-!
# Matches of patterns

The matches of a pattern lie in the text, whatever the pattern is.
-/

namespace Kouetsu

namespace Pattern

theorem bounds_of_mem_matchesFrom {p : Pattern} {text : Array Char} {fuel offset : Nat}
    {fresh : Bool} {s : Span} (hs : s ∈ p.matchesFrom text fuel offset fresh) :
    s.start ≤ s.stop ∧ s.stop ≤ text.size := by
  induction fuel generalizing offset fresh with
  | zero => simp [matchesFrom] at hs
  | succ fuel ih =>
      rw [matchesFrom] at hs
      split at hs
      · simp at hs
      · split at hs
        · rcases List.mem_cons.mp hs with rfl | hs
          · simp only
            omega
          · exact ih hs
        · exact ih hs

theorem within_of_mem_spans {p : Pattern} {t : Text} {s : Span} (hs : s ∈ p.spans t) :
    s.Within t := by
  have hb := bounds_of_mem_matchesFrom hs
  rw [List.size_toArray] at hb
  exact ⟨hb.1, hb.2⟩

end Pattern

end Kouetsu
