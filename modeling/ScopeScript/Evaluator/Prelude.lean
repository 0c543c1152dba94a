import ScopeScript.Parser.Source
import ScopeScript.Value

/-!
# The prelude

The methods of maps are written in the language itself. They are executed inside the scope of
every new map, where `entries` is the scope that holds what is in the map.
-/

namespace ScopeScript
namespace Prelude

/-- The file that diagnostics from map methods refer to. -/
def path : String := "native/lang/hashmap.syms"

/-- The methods of a map. -/
def source : String :=
  "fn set(key, value) std.hashmap.set(entries, key, value);\n" ++
  "fn get(key) return std.hashmap.get(entries, key);\n" ++
  "fn del(key) return std.hashmap.del(entries, key);\n" ++
  "fn has(key) return std.hashmap.has(entries, key);\n" ++
  "fn keys() return std.hashmap.keys(entries);\n" ++
  "fn values() return std.hashmap.values(entries);\n" ++
  "fn clear() std.hashmap.clear(entries);\n" ++
  "fn len() return std.hashmap.len(entries);\n"

/-- The parsed methods. -/
def statements : List Stmt :=
  match Program.parse path source with
  | .ok program => program.body
  | .error _ => []

/-- The prelude counts as the first text parsed. -/
def origin : Origin := 0

end Prelude
end ScopeScript
