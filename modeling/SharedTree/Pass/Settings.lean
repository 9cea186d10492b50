import SharedTree.Json.Reader
import SharedTree.Json.Value
import SharedTree.Pass.Basic

/-!
# Options as JSON

The options of a pass are a record with one member, which may be left out.
-/

namespace SharedTree.Pass.Options

open Json

/-- The name of the one member. -/
private def depthKey : String := "max_depth"

/-- Options as a record. -/
def toJson (o : Options) : Json := .record [(depthKey, .number o.maxDepth.toNat)]

/-- Reads options. What is not given has its default. -/
def read (d : Draft) : Reading Options := do
  let depth ← d.readStructure [depthKey] none (fun _ d old => Draft.takeOnce old d.readNumber) none
  return ⟨depth.getD defaultDepth⟩

/-- The options that a text stands for. -/
def ofText (text : String) : Reading Options := (Document.ofChars text.toList).read read

end SharedTree.Pass.Options
