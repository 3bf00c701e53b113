/-
Why a client gets no reply.

A client's request that is not answered either still has a chance, or it was lost by an event of
one of six kinds: its timer went off before its message came, the message could not be received,
it was no DNS, the request to a provider ended without passing anything on, or a list that was not
tidy was cleaned up, be it that of the listener or that of the requests to providers
(`unanswered`). The last two take away requests that are open.
-/
import Cdns.DaemonLife
import Cdns.ProcessCases

set_option autoImplicit false

namespace Cdns

open Lib.Machine

namespace daemon

variable {d d' : daemon} {e : daemon_event} {out : List daemon_output} {i : ℕ}

/-- The request to a provider is over for the clean-up. -/
def finished_task (t : Option task) : Bool := t.any fun t => !t.is_active

/-- A message that is forwarded was one to collect garbage for. -/
theorem asks_of_forwarded {env : Env} {r r' : Cdns.responder} {p : proto} {q : Query}
    {u : Cdns.upstream} (h : r.process env ⟨p, .of_query q⟩ = .ok (r', .forwarded u)) :
    asks env r ⟨p, .of_query q⟩ = true := by
  have henv : ({ env with created := none } : Env) = env := by
    rw [← (responder.forwarded_cases h).1]
  rw [asks, henv, h]

end daemon

end Cdns
