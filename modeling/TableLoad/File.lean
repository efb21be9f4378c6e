import TableLoad.Text.Utf8

namespace TableLoad

inductive FileContent
  | octets (bs : List UInt8)
  /-- It can be opened, but not be read. -/
  | directory
  | missing
  | unreadable (reason : String)
deriving DecidableEq, Repr

/-- Why a file gives no text. -/
inductive FileFault
  | missing
  | unreadable (reason : String)
deriving DecidableEq, Repr

/-- The text that a file holds. -/
def FileContent.text : FileContent → Except FileFault String
  | octets bs =>
    match Text.Utf8.decode bs with
    | .ok cs => .ok (String.ofList cs)
    | .error f => .error (.unreadable f.message)
  | directory => .error (.unreadable "is a directory")
  | missing => .error .missing
  | unreadable reason => .error (.unreadable reason)

end TableLoad
