import Provisioning.Pool.Exchange

/-! An owner of pooled numbers. It serves to try out a pool: objects are numbers counted up from one, and
every call is recorded. -/

namespace Provisioning.Memory

/-- When the owner fails. A fault that breaks off does so once. -/
structure StockFaults where
  failsToMake : Bool := false
  failsToDispose : Bool := false
  abortsMaking : Bool := false
  abortsTesting : Bool := false
  /-- The numbers that fail their test. -/
  stale : List Int64 := []
deriving DecidableEq, Inhabited

/-- What the owner was called for. -/
inductive StockEvent where
  | made (number : Int64)
  | tested (number : Int64)
  | disposed (number : Int64)
deriving DecidableEq

structure Stock where
  faults : StockFaults := {}
  /-- How many numbers were made. -/
  made : Nat := 0
  record : List StockEvent := []
deriving DecidableEq, Inhabited

namespace Stock

def note (s : Stock) (e : StockEvent) : Stock := { s with record := s.record ++ [e] }

def owner : PoolOwner Stock Int64 where
  make s :=
    if s.faults.abortsMaking then
      (.error .aborted, { s with faults := { s.faults with abortsMaking := false } })
    else if s.faults.failsToMake then (.error (.failed (.connectionFailed "backend down" none)), s)
    else
      let number := Int64.ofNat (s.made + 1)
      (.ok number, { s with made := s.made + 1 }.note (.made number))
  test number s :=
    let s := s.note (.tested number)
    if s.faults.abortsTesting then
      (.error .aborted, { s with faults := { s.faults with abortsTesting := false } })
    else if number ∈ s.faults.stale then
      (.error (.failed (.operationFailed ("object " ++ toString number.toInt ++ " is stale") none)), s)
    else (.ok (), s)
  dispose number s :=
    (if s.faults.failsToDispose then .error (.internal (.other "dispose failed")) else .ok (),
      s.note (.disposed number))

end Stock

end Provisioning.Memory
