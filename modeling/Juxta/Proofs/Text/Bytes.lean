/-
# Statements about all bytes

There are only 256 bytes, so a decidable statement about every byte can be
checked by looking at each of them.
-/

import Juxta.Text.Bytes

namespace Juxta

theorem forall_byte {holds : UInt8 → Prop} [DecidablePred holds]
    (check : ∀ number < 256, holds (UInt8.ofNat number)) (byte : UInt8) : holds byte := by
  have same := check byte.toNat byte.toNat_lt
  rwa [UInt8.ofNat_toNat] at same

end Juxta
