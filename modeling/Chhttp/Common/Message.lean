import Chhttp.Common.Headers

/-!
# Requests, responses and the callbacks they carry

The data of a message as the wire code uses it.  A callback of the application is modelled by what
it does: a `Producer` is the behaviour of a `StreamHandler`, a finite tree of the operations it
performs on its `StreamWriter` and of its reactions to their results.
-/

namespace Chhttp

/-- What an application callback can throw: a `StreamError`, another `std::exception`, or anything
else. -/
inductive Thrown where
  | streamError (error : ErrorInfo)
  | exception (what : String)
  | unknown

/-- The error of a callback that threw. -/
def callbackFailed (message : String) : Thrown → ErrorInfo
  | .streamError e => { code := .internal, message := message ++ ": " ++ e.message }
  | .exception what => { code := .internal, message := message ++ ": " ++ what }
  | .unknown => { code := .internal, message }

/-- The behaviour of a `StreamHandler`, one operation on its `StreamWriter` at a time.  After an
operation the handler goes on with the answer of the writer; it may end, or throw.  What it does
between two operations is its own. -/
inductive Producer where
  | finished
  | threw (thrown : Thrown)
  | write (data : Bytes) (next : Bool → Producer)
  | flush (next : Bool → Producer)
  | isOpen (next : Bool → Producer)

/-- `Request`, without the multipart form, the remote address and the path parameters, which the
wire code does not use. -/
structure Request where
  method : Bytes := bytes "GET"
  target : Bytes := bytes "/"
  path : Bytes := bytes "/"
  version : ℕ := 11
  headers : Headers := []
  query : List (Bytes × Bytes) := []
  body : Bytes := []
  bodyStream : Option Producer := none
  bodyStreamLength : Option ℕ := none
  keepAlive : Bool := true

/-- `Response`: the fields that the modelled functions read or write.  A response has a body, or a
stream handler that produces one, or the path of a file. -/
structure Response where
  status : ℤ := 200
  version : ℕ := 11
  headers : Headers := []
  body : Bytes := []
  keepAlive : Bool := true
  filePath : Option Bytes := none
  streamHandler : Option Producer := none

/-- `ResponseHead`: what the client hands to the callback on response heads, before any byte of the
body is read. -/
structure ResponseHead where
  status : ℤ := 0
  version : ℕ := 11
  headers : Headers := []
  keepAlive : Bool := true

end Chhttp
