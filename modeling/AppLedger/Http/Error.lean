/-! Why a request to a server fails. -/

namespace AppLedger

/-- Without a response there is only the reason; with one, its status and its body. -/
inductive HttpError
  | request (reason : String)
  | status (code : Nat) (body : String)
  deriving DecidableEq

namespace HttpError

def message : HttpError → String
  | .request reason => s!"HTTP request failed: {reason}"
  | .status code body => s!"Request failed with status {code}: {body}"

def status? : HttpError → Option Nat
  | .request _ => none
  | .status code _ => some code

end HttpError

end AppLedger
