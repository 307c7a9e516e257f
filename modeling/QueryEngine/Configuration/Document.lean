import QueryEngine.Configuration
import QueryEngine.Yaml.Node

/-!
# Configuration documents

`Configuration.ofText` reads the options of a document. Every key is known and stands once, limits
are whole numbers of 64 bits, and only an absent limit may be null. A sequence gives the options in
their order.
-/

namespace QueryEngine

namespace Configuration

/-- The options of a node with their names. -/
def options? (known : List String) : Yaml.Node → Option (List (String × Yaml.Node))
  | .mapping entries => do
    let named ← entries.mapM fun (key, value) =>
      match key with
      | .scalar text _ => some (String.ofList text, value)
      | _ => none
    let keys := named.map Prod.fst
    if keys.all known.contains && decide keys.Nodup then pure named else none
  | .sequence items => if items.length ≤ known.length then some (known.zip items) else none
  | .scalar .. => none

/-- A limit: a whole number, or none where nothing is written. -/
def limit? (node : Yaml.Node) : Option (Option Nat) :=
  match node with
  | .scalar [] false => some none
  | _ => if node.isNull then some none else node.natural?.map some

/-- The mode that a node names: by itself, or as the key of a single null. -/
def drainMode? : Yaml.Node → Option DrainMode
  | .scalar text _ => DrainMode.ofText? (String.ofList text)
  | .mapping [(.scalar text _, value)] =>
    if value.isNull then DrainMode.ofText? (String.ofList text) else none
  | _ => none

/-- Puts the options of the part `execution` into a configuration. -/
def readExecution? (configuration : Configuration) (node : Yaml.Node) : Option Configuration := do
  let options ← options? ["drain_mode", "max_drain_steps", "recursion_limit"] node
  let drainMode ← match options.lookup "drain_mode" with
    | none => some .concurrent
    | some node => drainMode? node
  let maxDrainSteps ← match options.lookup "max_drain_steps" with
    | none => some none
    | some node => limit? node
  let recursionLimit ← match options.lookup "recursion_limit" with
    | none => some configuration.recursionLimit
    | some node => node.natural?
  pure { configuration with drainMode, maxDrainSteps, recursionLimit }

/-- Puts the options of the part `connections` into a configuration. -/
def readConnections? (configuration : Configuration) (node : Yaml.Node) : Option Configuration := do
  let options ← options? ["max_page_size"] node
  let maxPageSize ← match options.lookup "max_page_size" with
    | none => some none
    | some node => limit? node
  pure { configuration with maxPageSize }

/-- The configuration that a document describes. -/
def ofNode? (node : Yaml.Node) : Option Configuration := do
  let options ← options? ["execution", "connections"] node
  let configuration ← match options.lookup "execution" with
    | none => some {}
    | some node => readExecution? {} node
  match options.lookup "connections" with
    | none => pure configuration
    | some node => readConnections? configuration node

/-- Whether a character has the property White_Space. -/
def isSpace (c : Char) : Bool :=
  (9 ≤ c.toNat && c.toNat ≤ 13) || c == ' ' || c.toNat == 0x85 || c.toNat == 0xa0
    || c.toNat == 0x1680 || (0x2000 ≤ c.toNat && c.toNat ≤ 0x200a) || c.toNat == 0x2028
    || c.toNat == 0x2029 || c.toNat == 0x202f || c.toNat == 0x205f || c.toNat == 0x3000

/-- The configuration that a text describes; a blank text describes the default one. -/
def ofText (text : String) : Except ConfigurationError Configuration :=
  if text.toList.all isSpace then Configuration.validate {}
  else
    match (Yaml.Node.ofText? text).bind ofNode? with
    | some configuration => configuration.validate
    | none => .error .unreadableYaml

end Configuration

end QueryEngine
