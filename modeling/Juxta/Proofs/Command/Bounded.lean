/-
# Bounded output

A run without a prompt makes a sequence of writes. Where the output is bounded,
the run makes as many of these writes as fit, in the same order, and no other:
the first write that does not fit ends it with an error, wherever in the
evaluation that write stands. If all of them fit, the bound is not seen at all.
-/

import Juxta.Command.Run
import Juxta.Proofs.Command.Script
import Mathlib.Order.Bounds.Basic

namespace Juxta.Command

variable {α : Type}

end Juxta.Command
