/-
  Net/SocketDefine.lean --- the enumerations of `net/socket_define.h`.
-/
import Mathlib.Data.List.Basic

set_option autoImplicit false

namespace StormNet.Net

/-- `SocketCloseType`: why a connection was closed. -/
inductive CloseType where
  /-- closed by this side -/
  | self
  /-- closed by the peer -/
  | peer
  | timeout
  /-- no request ever arrived on the connection -/
  | idleTimeout
  /-- the connection attempt took too long -/
  | connTimeOut
  | packetError
  | connectFail
  deriving DecidableEq, Repr

/-- `SocketType`. -/
inductive SocketType where
  /-- an ordinary connection -/
  | normal
  /-- a listening socket -/
  | listen
  /-- the eventfd that wakes epoll -/
  | notify
  deriving DecidableEq, Repr

/-- `SocketStatus` (the source spells the second `Reserse`). -/
inductive SocketStatus where
  /-- the slot is free -/
  | idle
  /-- the slot is taken but not yet set up -/
  | reserse
  | listen
  | connecting
  | connected
  deriving DecidableEq, Repr

end StormNet.Net
