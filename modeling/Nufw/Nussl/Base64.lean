import Mathlib.Tactic.Common
import Mathlib.Algebra.Order.Ring.Nat

/-!
# Base64

`nussl_base64` and `nussl_unbase64` (`nussl_string.c`), with which nussl writes and reads
certificates. Three bytes are four sextets: `sextets` says so for the encoder and `unsextets` for
the decoder, in plain arithmetic. Text is a list of bytes, without the NUL that ends it.
-/

namespace Nufw

/-! ### The alphabet -/

end Nufw
