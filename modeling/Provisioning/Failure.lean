import Provisioning.Attribute
import Provisioning.Change
import Provisioning.ConnectorKey
import Provisioning.Operation

/-! Why a request fails. Causes found by this library are told apart; connectors add causes of their
own in words. Every cause belongs to a class with a code and a message; five classes mean that no
connector was reached, three that trying again may help. -/

namespace Provisioning

/-- A request, an object or a delta that cannot be accepted. -/
inductive ArgumentFault where
  | duplicateAttribute (name : String)
  | uidShape (found : Attribute)
  | objectWithoutUid
  | objectWithoutName
  | createWithUid
  | updateWithoutUidAttribute
  | updateWithoutUid
  | nullValues (name : String)
  | specialAttribute (name : String) (kind : UpdateKind)
  | emptyUsername
  | deleteWithObject
  | missingObject (kind : DeltaKind)
  | uidMismatch (uid objectUid : Uid)
  | deltaWithoutUid
  | other (text : String)
deriving DecidableEq

def ArgumentFault.text : ArgumentFault → String
  | duplicateAttribute name => "duplicate attribute name exists: " ++ name
  | uidShape a => "uid attribute must hold exactly one string value, got " ++ a.text
  | objectWithoutUid => "connector object requires a uid"
  | objectWithoutName => "connector object requires a name"
  | createWithUid => "create attributes must not contain a Uid"
  | updateWithoutUidAttribute => "update requires a Uid attribute"
  | updateWithoutUid => "update requires a Uid"
  | nullValues name => "attribute '" ++ name ++ "' has a null value list"
  | specialAttribute name kind => "special attribute '" ++ name ++ "' cannot be used with " ++ kind.text
  | emptyUsername => "username must not be empty"
  | deleteWithObject => "delete delta must not carry an object"
  | missingObject kind => kind.text ++ " delta requires an object"
  | uidMismatch uid objectUid =>
    "delta uid '" ++ uid.value ++ "' does not match object uid '" ++ objectUid.value ++ "'"
  | deltaWithoutUid => "delta requires a uid"
  | other text => text

/-- Settings that contradict each other, or a text that is no configuration. -/
inductive ConfigurationFault where
  | noObjects
  | minIdleAboveMaxIdle (minIdle maxIdle : UInt32)
  | maxIdleAboveMaxObjects (maxIdle maxObjects : UInt32)
  | malformedText
  | other (text : String)
deriving DecidableEq

def ConfigurationFault.text : ConfigurationFault → String
  | noObjects => "max objects must be positive"
  | minIdleAboveMaxIdle a b =>
    "min idle (" ++ toString a.toNat ++ ") is greater than max idle (" ++ toString b.toNat ++ ")"
  | maxIdleAboveMaxObjects a b =>
    "max idle (" ++ toString a.toNat ++ ") is greater than max objects (" ++ toString b.toNat ++ ")"
  | malformedText => "malformed JSON"
  | other text => text

/-- Names the place of an object in a pool: the pool that made it, and how many it had made before. -/
structure EntryId where
  pool : Nat
  serial : Nat
deriving DecidableEq, Inhabited

def EntryId.text (id : EntryId) : String := toString id.pool ++ "-" ++ toString id.serial

/-- A thing used when it may not be. -/
inductive StateFault where
  | notActive (id : EntryId)
  | leaseReleased
  | other (text : String)
deriving DecidableEq

def StateFault.text : StateFault → String
  | notActive id => "object " ++ id.text ++ " is not an active member of this pool"
  | leaseReleased => "connector lease already released"
  | other text => text

/-- Something that should not have been possible. -/
inductive InternalFault where
  | foreignConfiguration
  | other (text : String)
deriving DecidableEq

def InternalFault.text : InternalFault → String
  | foreignConfiguration => "configuration does not belong to this connector"
  | other text => text

/-- Why a request failed. -/
inductive Failure where
  | invalidConfiguration (fault : ConfigurationFault)
  | poolExhausted (waitedMs : Nat)
  | poolClosed
  | unsupportedOperation (operation : Operation) (connector : ConnectorKey)
  | connectorNotFound (connector : ConnectorKey)
  | invalidArgument (fault : ArgumentFault)
  | illegalState (fault : StateFault)
  | unknownUid (objectClass uid : String)
  | connectionFailed (message : String) (source : Option String)
  | connectionTimeout (seconds : Nat)
  | authenticationFailed
  | passwordExpired (uid : String)
  | objectAlreadyExists (identifier : String)
  | operationFailed (message : String) (source : Option String)
  | invalidData (message : String)
  | internal (fault : InternalFault)
deriving DecidableEq

namespace Failure

def code : Failure → String
  | invalidConfiguration _ => "INVALID_CONFIG"
  | poolExhausted _ => "POOL_EXHAUSTED"
  | poolClosed => "POOL_CLOSED"
  | unsupportedOperation _ _ => "UNSUPPORTED_OPERATION"
  | connectorNotFound _ => "CONNECTOR_NOT_FOUND"
  | invalidArgument _ => "INVALID_ARGUMENT"
  | illegalState _ => "ILLEGAL_STATE"
  | unknownUid _ _ => "UNKNOWN_UID"
  | connectionFailed _ _ => "CONNECTION_FAILED"
  | connectionTimeout _ => "CONNECTION_TIMEOUT"
  | authenticationFailed => "AUTH_FAILED"
  | passwordExpired _ => "PASSWORD_EXPIRED"
  | objectAlreadyExists _ => "OBJECT_EXISTS"
  | operationFailed _ _ => "OPERATION_FAILED"
  | invalidData _ => "INVALID_DATA"
  | internal _ => "INTERNAL_ERROR"

def message : Failure → String
  | invalidConfiguration fault => "invalid configuration: " ++ fault.text
  | poolExhausted waitedMs =>
    "max objects exceeded: no pooled object available after waiting " ++ toString waitedMs ++ " ms"
  | poolClosed => "object pool already shut down"
  | unsupportedOperation o k => "operation " ++ o.text ++ " is not supported by connector " ++ k.text
  | connectorNotFound k => "connector not found: " ++ k.text
  | invalidArgument fault => "invalid argument: " ++ fault.text
  | illegalState fault => "illegal state: " ++ fault.text
  | unknownUid objectClass uid =>
    "object with uid '" ++ uid ++ "' and object class '" ++ objectClass ++ "' does not exist"
  | connectionFailed message _ => "connection failed: " ++ message
  | connectionTimeout seconds => "connection timeout after " ++ toString seconds ++ " seconds"
  | authenticationFailed => "authentication failed: invalid credentials"
  | passwordExpired uid => "authentication failed: password expired for " ++ uid
  | objectAlreadyExists identifier => "object already exists: " ++ identifier
  | operationFailed message _ => "operation failed: " ++ message
  | invalidData message => "invalid data: " ++ message
  | internal fault => "internal error: " ++ fault.text

/-- What a connector gave as the reason below its own message. -/
def source? : Failure → Option String
  | connectionFailed _ source | operationFailed _ source => source
  | _ => none

/-- The failures of a request that never reached a connector. -/
def isDispatchFailure : Failure → Bool
  | invalidConfiguration _ | poolExhausted _ | poolClosed | unsupportedOperation _ _
  | connectorNotFound _ => true
  | _ => false

/-- The failures after which the same request may succeed. -/
def isTransient : Failure → Bool
  | poolExhausted _ | connectionFailed _ _ | connectionTimeout _ => true
  | _ => false

def isPermanent (f : Failure) : Bool := !f.isTransient

end Failure

/-- How code of a connector can end without a value: it reports a failure, or it breaks off. -/
inductive Breakdown where
  | failed (failure : Failure)
  | aborted
deriving DecidableEq

/-- What calling code of a connector comes to. -/
abbrev Outcome (α : Type) := Except Breakdown α

/-- A failure where code of a connector would have been called. -/
def Outcome.ofExcept {α : Type} : Except Failure α → Outcome α
  | .ok a => .ok a
  | .error f => .error (.failed f)

end Provisioning
