import Dataflow.Json.Printer
import Dataflow.Json.Reader
import Dataflow.Json.Tagged

/-!
# The execution context

Settings and host resources that every evaluation passes on unchanged.

A context is a shared handle. It has an *identity*, given to it when it is made,
and two handles are the same exactly when their identities are: a context that is
changed gets a new identity, as only its own holder sees the change. Data of the
host program is kept as JSON behind the name of its type.

* `Context.engineUnder?` reads the engine that a context asks for: a string and a
  number of the same text name the same engine.
-/

namespace Dataflow

/-- The identity of a shared handle. -/
abbrev Identity := Nat

/-- The name of an engine. -/
structure EngineKey where
  /-- The name. -/
  name : String
deriving DecidableEq

namespace EngineKey

/-- The engine named by an integer: its decimal text. -/
def ofInt (n : Int) : EngineKey := ⟨String.ofList (Decimal.intText n)⟩

/-- Engines are ordered by their names. -/
instance : LT EngineKey := ⟨fun a b => a.name < b.name⟩

instance (a b : EngineKey) : Decidable (a < b) := inferInstanceAs (Decidable (a.name < b.name))

/-- The engine as data. -/
def toJson (engine : EngineKey) : Json := .string engine.name

/-- The engine that a JSON text holds. -/
def read? (s : String) : Option EngineKey := do return ⟨← (← Json.read? s).string?⟩

end EngineKey

/-- Data of the host program: what it is, by the name of its type, and what it
    holds. -/
structure HostData where
  /-- The name of the type. -/
  typeName : String
  /-- The content. -/
  content : Json

/-- The content, if it has a type of this name. -/
def HostData.as? (data : HostData) (typeName : String) : Option Json :=
  if data.typeName = typeName then some data.content else none

/-- The execution context: settings and host resources that pass through every
    evaluation unchanged. -/
structure Context where
  /-- The identity. -/
  identity : Identity
  /-- The settings, in order. -/
  settings : OrderedMap String Json
  /-- The resources. -/
  resources : OrderedMap String HostData

namespace Context

/-- The setting that names the engine unless another is configured. -/
def defaultEngineKey : String := "engine"

/-- A context with these settings. -/
def ofSettings (identity : Identity) (settings : List (String × Json)) : Context :=
  ⟨identity, .ofList settings, ∅⟩

/-- The context with a setting, under a new identity. -/
def withSetting (c : Context) (identity : Identity) (key : String) (value : Json) : Context :=
  { c with identity, settings := c.settings.insert key value }

/-- The context that asks for an engine, under a new identity. -/
def withEngine (c : Context) (identity : Identity) (engine : EngineKey) : Context :=
  c.withSetting identity defaultEngineKey (.string engine.name)

/-- The context with a resource, under a new identity. -/
def withResource (c : Context) (identity : Identity) (name : String) (data : HostData) : Context :=
  { c with identity, resources := c.resources.insert name data }

/-- The value of a setting. -/
def setting? (c : Context) (key : String) : Option Json := c.settings.get? key

/-- The content of a resource, if there is one under the name and it has the type. -/
def resource? (c : Context) (typeName name : String) : Option Json := do
  (← c.resources.get? name).as? typeName

/-- The engine that a setting names: a string, or a number by its text. -/
def engineUnder? (c : Context) (key : String) : Option EngineKey :=
  match c.setting? key with
  | some (.string s) => some ⟨s⟩
  | some (.number n) => some ⟨String.ofList n.text⟩
  | _ => none

/-- The engine that the default setting names. -/
def engine? (c : Context) : Option EngineKey := c.engineUnder? defaultEngineKey

/-- Whether two handles are the same context. -/
def same (c d : Context) : Bool := c.identity == d.identity

/-- The text of a context for a developer: the settings in order and the names of
    the resources, sorted. -/
def tagged (c : Context) : String :=
  "Context \x7b settings: \x7b" ++ ", ".intercalate (Json.taggedMembers c.settings.entries) ++
    "\x7d, resources: [" ++
    ", ".intercalate ((c.resources.keys.mergeSort (· ≤ ·)).map Text.quoted) ++ "] \x7d"

end Context

end Dataflow
