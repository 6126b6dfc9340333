import AppLedger.Effect
import AppLedger.Http.Error
import AppLedger.Bytes

/-! Requests to a server, and servers whose answers are prepared. -/

namespace AppLedger

inductive HttpMethod
  | get
  | post
  deriving DecidableEq

def HttpMethod.text : HttpMethod → String
  | .get => "GET"
  | .post => "POST"

/-- The path begins with a slash. A body comes with the type of its content. -/
structure HttpRequest where
  method : HttpMethod
  path : String
  query : List (String × String) := []
  body : Option (Bytes × String) := none
  deriving DecidableEq

/-- Sends requests, and yields the bodies of the answers. -/
structure HttpClient (σ : Type) where
  send : HttpRequest → Effect HttpError σ String

/-- An answer that is prepared: a response, or the reason why there is none. -/
inductive PreparedAnswer
  | response (status : Nat) (body : String)
  | failure (reason : String)
  deriving DecidableEq

def PreparedAnswer.result : PreparedAnswer → Except HttpError String
  | .response status body => if status = 200 then .ok body else .error (.status status body)
  | .failure reason => .error (.request reason)

/-- A server that gives its answers in order, whatever it is asked, and keeps the requests. -/
structure PreparedServer where
  answers : List PreparedAnswer := []
  requests : List HttpRequest := []

namespace PreparedServer

def noAnswers : String := "no more responses"

def answer (server : PreparedServer) (request : HttpRequest) :
    Except HttpError String × PreparedServer :=
  let requests := server.requests ++ [request]
  match server.answers with
  | [] => (.error (.request noAnswers), { server with requests })
  | first :: rest => (first.result, { answers := rest, requests })

def client : HttpClient PreparedServer where
  send request := ExceptT.mk fun server => server.answer request

end PreparedServer

end AppLedger
