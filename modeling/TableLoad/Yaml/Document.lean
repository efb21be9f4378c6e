import TableLoad.Yaml.Node
import TableLoad.Yaml.Reading

namespace TableLoad.Yaml

mutual

/-- The document that a node is. The keys of a mapping are scalars. -/
def Node.document? : Node → Option Document
  | .scalar text isPlain => some (.scalar (reading text isPlain))
  | .sequence items => do return .list (← documents? items) false
  | .mapping entries => do return .map (← entryDocuments? entries) false

def Node.documents? : List Node → Option (List Document)
  | [] => some []
  | n :: ns => do return (← n.document?) :: (← documents? ns)

def Node.entryDocuments? : List (Node × Node) → Option (List (String × Document))
  | [] => some []
  | (k, v) :: es => do
    match k with
    | .scalar text _ => return (text, ← v.document?) :: (← entryDocuments? es)
    | _ => none

end

/-- The document that a text holds. -/
def read? (text : String) : Option Document := do
  (← Node.ofTokens? (← Token.ofText? text)).document?

end TableLoad.Yaml
