import ProviderKit.Server.Rpc
import ProviderKit.Plan.Unknowns

-- Putting operations off. A configured provider may put off everything, and a callback may
-- put off its own operation; either holds only for callers that can deal with it.

namespace ProviderKit.Server

variable {σ δ : Type}

/-- The deferral that holds for all operations, if the caller can deal with it. -/
def providerDeferral (client : ClientCapabilities) : Rpc σ δ (Option Deferral) := do
  let server := (← get).server
  return if server.options.providerDeferral && client.deferralAllowed then server.shared.deferred
    else none

def unexpectedDeferral (label : String) : Diagnostic :=
  .error ("Invalid Deferred " ++ label ++ " Response")
    (label ++ " returned a deferred response but the request did not indicate support for deferred actions. This is always an issue with the provider and should be reported to the provider developers.")

/-- Report a deferral that the caller did not allow. -/
def checkDeferral (label : String) (client : ClientCapabilities) (deferred : Option Deferral) :
    Rpc σ δ Unit :=
  if deferred.isSome && !client.deferralAllowed then Rpc.report [unexpectedDeferral label]
  else pure ()

/-- What is known of an operation that is put off: the configuration, with unknown values
where the provider decides. -/
def putOff (config : Described) : Rpc σ δ (Option Value) :=
  match config.schema.markUnknowns config.raw config.raw with
  | .ok v => return some v
  | .error fault => do
    Rpc.report [fault.asFrameworkError "Error marking computed attributes as unknown"]
    return none

end ProviderKit.Server
