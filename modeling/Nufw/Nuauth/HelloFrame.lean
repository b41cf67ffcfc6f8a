import Nufw.Nuauth.ArrivalOrder
import Nufw.Nuauth.HelloRequests

/-!
# What the user may change of a request

A request of a gateway meets its user in one of three ways: the client answers a hello, the packet
of the user comes after the request, or before it. The connection that goes on is then made of two
halves, and what the gateway has sent should all come from the request.

Two of the ways do this. `localid_insert_message` also copies the mark, from the user to the
request; and the record of the user, which `user_request` allocates with `g_new0`, has none. So the
mark of the gateway is lost, unless it was zero to begin with (`firewall_data_kept_iff`), and the
answer tells the gateway to set the mark to zero.
-/

namespace Nufw

section

variable {conf : Params} {host : Host} {data : TlsBufferRead} {n u c : Connection}

theorem Announced.state (hu : Announced conf data u) : u.state = .userpckt := by
  rw [hu.frame]

theorem Announced.mark (hu : Announced conf data u) : u.mark = 0 := by
  rw [hu.frame]
  rfl

end

/-- A request of the sample connection, with a mark. -/
def Connection.marked (mark : UInt32) : Connection :=
  { Connection.request 1 0 6 with mark := mark, decision := .nodecide, expire := -1 }

end Nufw
