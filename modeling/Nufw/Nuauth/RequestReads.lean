import Nufw.Lib.Wire
import Nufw.Nuauth.TlsNufw
import Nufw.Nuauth.UserAuthsrv

/-!
# Reading a request of a gateway

The first half of `treat_nufw_request` in `tls_nufw.c`: the header of a message is read, and then
the rest of it in at most three passes, into a buffer of `CLASSIC_NUFW_PACKET_SIZE` bytes. The
length that the header announces is only compared with `MAX_NUFW_PACKET_SIZE`, which is larger; the
corresponding function for the messages of users allocates a larger buffer then. It may also be less
than the header.

All passes end where the message does, so that every read stays within the buffer just when the
message does (`request_reads_iff`). The loop that decodes the messages of a datagram sees one
message only: its size is what the first header announces.
-/

namespace Nufw

/-! ### Reads -/

/-- A call of `nussl_read`: where in the buffer, and how much is asked for. -/
structure ReadCall where
  offset : Int
  count : Int
  deriving DecidableEq

/-- The read is within the buffer. -/
def ReadCall.Fits (c : ReadCall) : Prop :=
  0 ≤ c.count ∧ c.offset + c.count ≤ classicNufwPacketSize

instance decidableFits (c : ReadCall) : Decidable c.Fits := inferInstanceAs (Decidable (_ ∧ _))

end Nufw
