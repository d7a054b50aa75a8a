import TreeFacts.Encoding.Forest
import TreeFacts.Engine
import TreeFacts.Program.Interface
import TreeFacts.Schema.Derive
import TreeFacts.Solidity.Enrichment

namespace TreeFacts

/-- A schema together with a rule program for it. -/
structure Session where
  schema : Schema
  enrichment : Enrichment
  interface : Program.Interface
  /-- the schema's types and the program's own -/
  registry : Registry

namespace Session

def new (g : Grammar) (skip : SkipSet) (e : Enrichment) (i : Program.Interface) :
    Except Error Session := do
  let schema ← Schema.derive g skip e
  return ⟨schema, e, i, ← i.register schema.registry⟩

/-- A session on Solidity trees, with all their fields but the standard exceptions. -/
def solidity (i : Program.Interface) (version? : Option Solidity.Version) : Except Error Session :=
  new Solidity.grammar .standard (Solidity.enrichment version?) i

def encode (s : Session) (roots : List Node) : Except Error FactSet :=
  (s.schema.encodeAll s.enrichment roots).map (·.1)

/-- Encodes trees, runs the engine on them and reads the named relations. The working directory is
there if the engine's turn came. -/
def run (s : Session) (c : EngineConfig) (m : Machine) (inherited : Option String)
    (roots : List Node) (outputs : List String) : Except Error FactSet × Option WorkDir :=
  let prepared : Except Error (List Relation × FactSet) := do
    let relations ← s.interface.select outputs
    return (relations, ← s.encode roots)
  match prepared with
  | .error e => (.error e, none)
  | .ok (relations, input) =>
    let (result, dir) := c.run m inherited input relations s.registry
    (result, some dir)

end Session

end TreeFacts
