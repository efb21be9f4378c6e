import TableLoad.File
import TableLoad.Job.Basic
import TableLoad.Yaml.Document

namespace TableLoad.Job

/-- The job that a text in YAML defines. Only jobs that make sense come out. -/
def read (text : String) : Except LoadError Job :=
  match (Yaml.read? text).bind ofDocument? with
  | some j => j.validated
  | none => .error (.yamlParse "the text defines no job")

/-- The job that a file defines. -/
def ofFile (path : String) (content : FileContent) : Except LoadError Job :=
  match content.text with
  | .ok text => read text
  | .error .missing => .error (.fileNotFound path)
  | .error (.unreadable reason) =>
    .error (.config ("Failed to read job file '" ++ path ++ "': " ++ reason))

end TableLoad.Job
