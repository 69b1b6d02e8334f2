import Provisioning.Change
import Provisioning.Configuration
import Provisioning.Json.Coded
import Provisioning.Options

/-! JSON forms of configurations, of what accompanies requests and answers, and of kinds. -/

namespace Provisioning

open Json

def ConnectorKey.toJson (k : ConnectorKey) : Json :=
  .object [("bundle_name", .string k.bundle), ("bundle_version", .string k.version),
    ("connector_name", .string k.name)]

def ConnectorKey.fields : Fields ConnectorKey :=
  (((Fields.pure ConnectorKey.mk).and (.required "bundle_name" .text)).and
    (.required "bundle_version" .text)).and
    (.required "connector_name" .text)

def ConnectorKey.ofJson? : Decoder ConnectorKey := ConnectorKey.fields.decode

instance : Coded ConnectorKey := ⟨ConnectorKey.toJson, ConnectorKey.ofJson?⟩

def PoolSettings.toJson (s : PoolSettings) : Json :=
  .object [("max_objects", .integer s.maxObjects.toNat), ("max_idle", .integer s.maxIdle.toNat),
    ("min_idle", .integer s.minIdle.toNat), ("max_wait_ms", .integer s.maxWaitMs.toNat),
    ("min_evictable_idle_time_ms", .integer s.minEvictableIdleTimeMs.toNat)]

def PoolSettings.fields : Fields PoolSettings :=
  let unset : PoolSettings := {}
  (((((Fields.pure PoolSettings.mk).and (.defaulted "max_objects" .uint32 unset.maxObjects)).and
    (.defaulted "max_idle" .uint32 unset.maxIdle)).and
    (.defaulted "min_idle" .uint32 unset.minIdle)).and
    (.defaulted "max_wait_ms" .uint64 unset.maxWaitMs)).and
    (.defaulted "min_evictable_idle_time_ms" .uint64 unset.minEvictableIdleTimeMs)

def PoolSettings.ofJson? : Decoder PoolSettings := PoolSettings.fields.decode

instance : Coded PoolSettings := ⟨PoolSettings.toJson, PoolSettings.ofJson?⟩

def ApiConfiguration.toJson (c : ApiConfiguration) : Json :=
  .object [("connector_key", c.connector.toJson), ("configuration_properties", c.properties),
    ("pool", c.pool.toJson)]

def ApiConfiguration.fields : Fields ApiConfiguration :=
  (((Fields.pure ApiConfiguration.mk).and (.required "connector_key" ConnectorKey.ofJson?)).and
    (.defaulted "configuration_properties" .any (.object []))).and
    (.defaulted "pool" PoolSettings.ofJson? {})

def ApiConfiguration.ofJson? : Decoder ApiConfiguration := ApiConfiguration.fields.decode

instance : Coded ApiConfiguration := ⟨ApiConfiguration.toJson, ApiConfiguration.ofJson?⟩

/-- Reads a JSON text as data of some type. -/
def Coded.read {α : Type} [Coded α] (text : String) : Except Failure α :=
  match Coded.ofText? text with
  | some a => .ok a
  | none => .error (.invalidConfiguration .malformedText)

/-- A configuration from its JSON text. -/
def ApiConfiguration.ofText (text : String) : Except Failure ApiConfiguration :=
  Coded.read text

def SortKey.toJson (k : SortKey) : Json :=
  .object [("field", .string k.field), ("ascending", .bool k.ascending)]

def SortKey.fields : Fields SortKey :=
  ((Fields.pure SortKey.mk).and (.required "field" .text)).and (.defaulted "ascending" .truth true)

def SortKey.ofJson? : Decoder SortKey := SortKey.fields.decode

instance : Coded SortKey := ⟨SortKey.toJson, SortKey.ofJson?⟩

/-- Without a cookie nothing is written of it. -/
def SearchResult.toJson (r : SearchResult) : Json :=
  .object ((r.cookie?.map fun c => ("paged_results_cookie", Json.string c)).toList ++
    [("remaining_paged_results", .integer r.remaining.toInt)])

def SearchResult.fields : Fields SearchResult :=
  ((Fields.pure SearchResult.mk).and (.optional "paged_results_cookie" .text)).and
    (.defaulted "remaining_paged_results" .int64 (-1))

def SearchResult.ofJson? : Decoder SearchResult := SearchResult.fields.decode

instance : Coded SearchResult := ⟨SearchResult.toJson, SearchResult.ofJson?⟩

def Script.toJson (s : Script) : Json :=
  .object [("language", .string s.language), ("text", .string s.text), ("arguments", .object s.arguments)]

def Script.fields : Fields Script :=
  (((Fields.pure Script.mk).and (.required "language" .text)).and (.required "text" .text)).and
    (.defaulted "arguments" (fun j => (Decoder.members .any j).map sortMembers) [])

def Script.ofJson? : Decoder Script := Script.fields.decode

instance : Coded Script := ⟨Script.toJson, Script.ofJson?⟩

def Capability.toJson (c : Capability) : Json := .string c.text

def Capability.ofJson? : Decoder Capability := .choice Capability.ofText?

instance : Coded Capability := ⟨Capability.toJson, Capability.ofJson?⟩

def UpdateKind.toJson (k : UpdateKind) : Json := .string k.text

/-- Unlike a kind given by a caller in words, a kind in JSON is spelled exactly. -/
def UpdateKind.ofJson? : Decoder UpdateKind := .choice fun s => UpdateKind.all.find? fun k => k.text = s

instance : Coded UpdateKind := ⟨UpdateKind.toJson, UpdateKind.ofJson?⟩

def DeltaKind.toJson (k : DeltaKind) : Json := .string k.text

def DeltaKind.ofJson? : Decoder DeltaKind := .choice DeltaKind.ofText?

instance : Coded DeltaKind := ⟨DeltaKind.toJson, DeltaKind.ofJson?⟩

end Provisioning
