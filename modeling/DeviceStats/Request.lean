import DeviceStats.Property

/-!
# Request — what is asked of a device

A request names an endpoint and may carry arguments.  Its key tells it apart from other requests of
a cycle.
-/

namespace DeviceStats

open Json (Value)

/-- Why a request has no answer. -/
inductive LoadError
  | notFound (endpoint : String)
  | failed (endpoint cause : String)
  | timeout (endpoint : String)
deriving DecidableEq, Repr

def LoadError.message : LoadError → String
  | .notFound endpoint => "Endpoint not found: " ++ endpoint
  | .failed endpoint cause => "Endpoint '" ++ endpoint ++ "' failed: " ++ cause
  | .timeout endpoint => "Endpoint '" ++ endpoint ++ "' timed out"

structure Request where
  endpoint : String
  args? : Option Value

namespace Request

def ofProperty (p : Property) : Request := ⟨p.endpoint, p.descriptor.keyArgs?⟩

/-- The endpoint, followed by the written arguments after a question mark. -/
def key (r : Request) : String :=
  match r.args? with
  | some args => r.endpoint ++ "?" ++ args.text
  | none => r.endpoint

end Request

/-- Answers kept in memory, by endpoint. -/
structure MemoryLoader where
  responses : Named Value := []

namespace MemoryLoader

def insert (l : MemoryLoader) (endpoint : String) (response : Value) : MemoryLoader :=
  ⟨Named.insert l.responses endpoint response⟩

def load (l : MemoryLoader) (r : Request) : Except LoadError Value :=
  match Named.get? l.responses r.endpoint with
  | some v => .ok v
  | none => .error (.notFound r.endpoint)

def size (l : MemoryLoader) : Nat := l.responses.length

end MemoryLoader

end DeviceStats
