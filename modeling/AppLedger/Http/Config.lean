/-! Where a node is found. -/

namespace AppLedger

structure NodeConfig where
  server : String
  port : Option UInt16 := none
  token : Option String := none

namespace NodeConfig

/-- The node of a local network for development. -/
def localNetwork : NodeConfig where
  server := "http://localhost"
  port := some 4001
  token := some (String.ofList (List.replicate 64 'a'))

def withoutSlashes (s : String) : String :=
  String.ofList (s.toList.reverse.dropWhile (· = '/')).reverse

/-- Slashes at the end of the server are left out. -/
def baseUrl (c : NodeConfig) : String :=
  withoutSlashes c.server ++ c.port.elim "" fun port => s!":{port.toNat}"

end NodeConfig

end AppLedger
