import BitzServer.Server.RequestHandler

/-!
# The echo service

`bitz::Echo`, the modifier that asks for the whole request and sends its payload back.
-/

namespace BitzServer

/-- An object of `bitz::Echo` in one pass of `serve_client`, with the responses that `new icap::Response` gives it at the times it makes
them, and what the `ieof` of its local payload, which is not initialised, holds. -/
structure Echo where
  ok : Response
  «continue» : Response
  ieof : Bool
  ok_made : ∃ s s', (Response.ofStatus .ok).run s = .ok (ok, s')
  continue_made : ∃ s s', (Response.ofStatus .continue).run s = .ok («continue», s')

namespace Echo

/-- The payload of `Echo::modify`. -/
def payload (echo : Echo) (request : Request) : Payload where
  reqHeader := if request.header.request.method = bytes "REQMOD" then request.payload.reqHeader else []
  reqBody := if request.header.request.method = bytes "REQMOD" then request.payload.reqBody else []
  resHeader := request.payload.resHeader
  resBody := request.payload.resBody
  ieof := echo.ieof

/-- `Echo::modify` -/
def modify (echo : Echo) (request : Request) : Response := echo.ok.setPayload (echo.payload request)

/-- `Echo::preview` -/
def preview (echo : Echo) (_ : Request) : Response := echo.continue

/-- The modifier. -/
def modifier (echo : Echo) : Modifier := { preview := echo.preview, modify := echo.modify }

/-- The responses have the statuses they are made with, and no payload. -/
theorem ok_status (echo : Echo) : echo.ok.header.status = .ok := by
  obtain ⟨s, s', hrun⟩ := echo.ok_made
  exact (Response.ofStatus_made hrun).1

theorem continue_status (echo : Echo) : echo.continue.header.status = .continue := by
  obtain ⟨s, s', hrun⟩ := echo.continue_made
  exact (Response.ofStatus_made hrun).1

theorem continue_payload (echo : Echo) : echo.continue.payload = Payload.empty := by
  obtain ⟨s, s', hrun⟩ := echo.continue_made
  exact (Response.ofStatus_made hrun).2

/-- There is one, whatever the time. -/
theorem exists_echo : Nonempty Echo := by
  obtain ⟨ok, s, hok, -⟩ := Response.ofStatus_returns .ok (Conn.ofInput [])
  obtain ⟨cont, s', hcont, -⟩ := Response.ofStatus_returns .continue (Conn.ofInput [])
  exact ⟨⟨ok, cont, false, ⟨_, _, hok⟩, ⟨_, _, hcont⟩⟩⟩

end Echo

end BitzServer
