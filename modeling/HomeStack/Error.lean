import HomeStack.Lib.Text

/-! Why an operation failed: `hs_pve::PveError`, `hs_core::CoreError` and the failures of the agent
accounts, with their `Display` texts. The texts matter: a call refused for a taken lock and a
write lost to another writer are recognised by what the error says. -/

namespace HomeStack

/-- A Proxmox API call failed (`hs_pve::PveError`). -/
inductive PveError
  | config (message : Text)
  | unreachable (failures : List (Text × Text))
  | unauthorized
  | forbidden (message : Text)
  | nodeUnreachable (message : Text)
  | api (status : Nat) (message : Text)
  | response (message : Text)
  deriving DecidableEq, Repr

def PveError.toText : PveError → Text
  | .config m => "invalid Proxmox client configuration: " ++ m
  | .unreachable _ => "no Proxmox endpoint is reachable"
  | .unauthorized => "Proxmox rejected the API token"
  | .forbidden m => "permission denied: " ++ m
  | .nodeUnreachable m => "node unreachable: " ++ m
  | .api status m => "Proxmox error " ++ Text.ofNat status ++ ": " ++ m
  | .response m => "bad Proxmox response: " ++ m

inductive CoreError
  | context (message : Text) (causes : List CoreError)
  | pve (error : PveError)
  | notFound (message : Text)
  | invalid (message : Text)
  | refused (message : Text)
  | ambiguous (message : Text)
  | unusable (message : Text)
  | outsidePool (message : Text)
  | failed (message : Text)
  | busy (message : Text)
  deriving Repr

def CoreError.toText : CoreError → Text
  | .context m _ => m
  | .pve e => e.toText
  | .notFound m | .invalid m | .refused m | .ambiguous m | .unusable m
  | .outsidePool m | .failed m | .busy m => m

/-- A failure of `hs-agent-accounts`, under its code. -/
structure Failure where
  code : Text
  message : Text
  deriving DecidableEq

def Failure.unsupported : Failure :=
  ⟨"unsupported_capability", "This provider does not support this operation"⟩

/-- `py_repr`: Python's `repr()` of an optional string, as used in messages. -/
def pyRepr : Option Text → Text
  | none => "None"
  | some t => "'" ++ t ++ "'"

end HomeStack
