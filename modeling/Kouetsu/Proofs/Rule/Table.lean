import Kouetsu.Proofs.Text.Visible
import Kouetsu.Rule.Agreement
import Kouetsu.Rule.Chain
import Kouetsu.Rule.Dictionary
import Kouetsu.Rule.Phrase
import Kouetsu.Rule.Verb
/-!
# Tables of phrases

Whatever a check looks for by a table opens with a visible character.  The tables are gone through
once, here; a check asks for no more than that its table is one of them.
-/

namespace Kouetsu

open Check in
def phraseTables : List (List String) :=
  [redundantPhrases.map (·.1), tautologicalPhrases.map (·.1), verbalNounPhrases.map (·.1),
    homophonePhrases.map (·.1), doubleHonorifics.map (·.1), misusedHonorifics.map (·.1),
    disorderedModifiers.map (·.1), ambiguousModifiers.map (·.1), misusedConjunctions.map (·.1),
    openedKanji.map (·.1), doubleNegationPhrases.map (·.1), weakExpressions.map (·.phrase),
    knownCompounds.map (·.1), twistedPhrases.map (·.1), unclearReferences.map (·.1),
    leadingReferences.map (·.1), wishNouns.map fun n => "私の" ++ n ++ "は",
    skillNouns.map fun n => "の" ++ n ++ "は", passiveEndings, conjunctions,
    webTerms.map (·.1), generativeAiTerms.map (·.1), awsTerms.map (·.1), azureTerms.map (·.1),
    ociTerms.map (·.1)]

theorem visibleAt_of_mem_phraseTables {phrases : List String} (h : phrases ∈ phraseTables)
    {phrase : String} (hphrase : phrase ∈ phrases) : Text.VisibleAt phrase.toList 0 := by
  -- closed, so that one computation serves every table
  have hopens : ∀ phrases ∈ phraseTables, ∀ phrase ∈ phrases,
      Text.opensVisibly phrase.toList = true := by decide +kernel
  exact Text.opensVisibly_iff.mp (hopens phrases h phrase hphrase)

theorem pos_of_mem_phraseTables {phrases : List String} (h : phrases ∈ phraseTables)
    {phrase : String} (hphrase : phrase ∈ phrases) : 0 < phrase.length := by
  have hpos := (visibleAt_of_mem_phraseTables h hphrase).lt_length
  rwa [String.length_toList] at hpos

end Kouetsu
