import Kouetsu.Proofs.Failure
import Kouetsu.Proofs.Run
/-!
# Damaged caches

What is no cache, no entry or no list of issues counts as missing.  The records of an entry that
answers for a file are read as they are, and a call ends at the first that cannot be.
-/

namespace Kouetsu

namespace Cache

end Cache

namespace Proofreader

variable {r : Proofreader} {o : CheckOptions} {t : FileTree} {paths : List LooseText} {plan : Plan}

def answer (digest : String) (v : Value) : Cache :=
  [("a.md", Cache.record "1:3" digest [.ofValue v])]

end Proofreader

end Kouetsu
