import Speecher.Foundations.Json
import Speecher.Providers.Failure
import Speecher.Settings.WritingProfiles

/-!
# The sockets of the service streams

What both clients of a streaming service read of their WebSocket: its state (`SocketState`), the errors it reports
(`SocketError`) and the kind of failure each is (`webSocketFailureKind`).
-/

namespace Speecher

/-- `QAbstractSocket::SocketState`, as far as a `QWebSocket` goes through it. -/
inductive SocketState
  | unconnected
  | connecting
  | connected
  | closing
  deriving DecidableEq

/-- `QWebSocket::close`. -/
def SocketState.close : SocketState → SocketState
  | .connecting | .connected | .closing => .closing
  | .unconnected => .unconnected

theorem SocketState.close_ne_connecting (socket : SocketState) : socket.close ≠ .connecting := by
  cases socket <;> nofun

theorem SocketState.close_eq_unconnected {socket : SocketState} (h : socket.close = .unconnected) :
    socket = .unconnected := by
  cases socket <;> first | rfl | cases h

/-- `QAbstractSocket::SocketError`: the errors that are told apart. -/
inductive SocketError
  | connectionRefused
  | remoteHostClosed
  | hostNotFound
  | socketTimeout
  | network
  | sslHandshakeFailed
  | proxyConnectionRefused
  | proxyConnectionClosed
  | proxyConnectionTimeout
  | proxyNotFound
  | temporary
  | other
  deriving DecidableEq

/-- Only the server's side of a stream went away. -/
def isRemoteClose (error : SocketError) : Bool := error = .remoteHostClosed

def failureKindForHttpStatus (httpStatus : ℕ) : ProviderFailureKind :=
  if httpStatus = 401 ∨ httpStatus = 403 then .authentication
  else if httpStatus = 429 then .rateLimited
  else if 500 ≤ httpStatus ∧ httpStatus ≤ 599 then .server
  else .other

/-- The number `status code: (\d{3})` finds in an error's text, `0` when it finds none. -/
def handshakeStatus (errorString : Text) : ℕ :=
  let label := "status code: ".toList
  (errorString.tails.findSome? fun rest =>
    let digits := (rest.drop label.length).take 3
    if label <+: rest ∧ digits.length = 3 ∧ digits.all Char.isDigit then
      some (digits.foldl (fun n c => 10 * n + (c.toNat - '0'.toNat)) 0)
    else none).getD 0

def webSocketFailureKind (error : SocketError) (errorString : Text) : ProviderFailureKind :=
  if handshakeStatus errorString ≠ 0 then failureKindForHttpStatus (handshakeStatus errorString)
  else match error with
    | .socketTimeout => .timeout
    | .connectionRefused | .remoteHostClosed | .hostNotFound | .network | .sslHandshakeFailed
    | .proxyConnectionRefused | .proxyConnectionClosed | .proxyConnectionTimeout | .proxyNotFound | .temporary => .network
    | .other => .other

example : webSocketFailureKind .other "Unhandled http status code: 429 (Too Many Requests).".toList = .rateLimited := by
  decide

/-- An error's text says that the service refused the account. -/
def namesAuthentication (fold : CaseFolding) (detail : Text) : Bool :=
  "401".toList <:+: detail || "403".toList <:+: detail ||
    containsAnyCase fold detail "unauthorized".toList || containsAnyCase fold detail "forbidden".toList

end Speecher
