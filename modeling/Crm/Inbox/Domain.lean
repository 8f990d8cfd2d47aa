import Crm.Lib.Uuid

/-!
# Crm.Inbox.Domain — what a carrier is asked to send

`OutboundMessage` of `internal/inbox/port_outbound.go`.
-/

namespace Crm.Inbox

structure OutboundMessage where
  tenantID : UUID
  conversationID : UUID
  channel : String
  toExternalID : String
  body : String
  idempotencyKey : String
  deriving DecidableEq, Repr

end Crm.Inbox
