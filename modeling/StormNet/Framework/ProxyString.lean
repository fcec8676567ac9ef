/-
  Framework/ProxyString.lean --- `ServiceProxy::parseFromString` of
  `framework/storm_service_proxy.cpp`: what a service string says.

  With an `@` the string lists the addresses itself; without one it names a service whose
  endpoints the registry knows.  Whether the registry answers has no part in the outcome:
  an error of `Query` is logged and the parse still succeeds.
-/
import StormNet.Util.UtilString

set_option autoImplicit false

namespace StormNet.Framework

open StormNet.Util (Str)
open StormNet.Util.UtilString

/-- `m_ip` and `m_port` of a `ProxyEndPoint`. -/
structure Address where
  ip : Str
  port : Nat
  deriving DecidableEq, Repr

/-- The fields that a successful `parseFromString` sets. -/
structure ProxyString where
  setName : Str
  needLocator : Bool
  name : Str
  appName : Str := []
  serverName : Str := []
  serviceName : Str := []
  /-- the endpoints pushed into `m_activeEndPoints` -/
  endPoints : List Address := []
  deriving DecidableEq, Repr

namespace ProxyString

/-- The loop over the options of an endpoint; `-t` and unknown letters are skipped. -/
def parseOptions : Address → List Str → Option Address
  | a, opt :: arg :: rest =>
      match opt with
      | ['-', 'h'] => parseOptions { a with ip := arg } rest
      | ['-', 'p'] => parseOptions { a with port := strtoUInt32 arg } rest
      | ['-', _] => parseOptions a rest
      | _ => none
  | a, _ => some a

/-- One turn of the loop over the endpoints. -/
def parseEndPoint (desc : Str) : Option Address :=
  let v := splitString desc " \t\r\n".toList true
  if v.length < 3 ∨ v.length % 2 ≠ 1 then none
  else if v.head? ≠ some "tcp".toList then none
  else (parseOptions ⟨[], 0⟩ v.tail).filter (fun a => !a.ip.isEmpty && a.port ≠ 0)

/-- `ServiceProxy::parseFromString`; `none` is `false`. -/
def parseFromString (config setName : Str) : Option ProxyString :=
  if '@' ∈ config then
    let name := config.takeWhile (· ≠ '@')
    let list := (config.dropWhile (· ≠ '@')).tail
    ((splitString list ":".toList true).mapM parseEndPoint).map fun endPoints =>
      { setName := setName
        needLocator := false
        name := name ++ "Proxy".toList
        endPoints := endPoints }
  else
    match splitString config ".".toList true with
    | appName :: serverName :: serviceName :: _ => some
        { setName := setName
          needLocator := true
          name := config ++ "Proxy".toList
          appName := appName
          serverName := serverName
          serviceName := serviceName }
    | _ => none

/-- A proxy keeps the set name it was parsed with. -/
theorem setName_of_parse {config setName : Str} {p : ProxyString}
    (h : parseFromString config setName = some p) : p.setName = setName := by
  unfold parseFromString at h
  split at h
  · obtain ⟨endPoints, -, rfl⟩ := Option.map_eq_some_iff.mp h
    rfl
  · split at h
    · cases h
      rfl
    · cases h

/-- Whether a string parses is a matter of the string alone. -/
theorem isSome_parse (config s t : Str) :
    (parseFromString config s).isSome = (parseFromString config t).isSome := by
  unfold parseFromString
  split
  · simp only [Option.isSome_map]
  · split <;> rfl

example : parseFromString "app@tcp -h 10.0.0.1 -p 0x50 -t 3".toList [] =
    some { setName := [], needLocator := false, name := "appProxy".toList
           endPoints := [⟨"10.0.0.1".toList, 80⟩] } := by decide

end ProxyString

end StormNet.Framework
