import TableLoad.Record.Elements
import TableLoad.Record.Lines

namespace TableLoad

/-- How the records of an input are written. -/
inductive RecordFormat
  | lines | document
deriving DecidableEq, Repr

namespace RecordFormat

def name : RecordFormat → String
  | lines => "jsonl"
  | document => "json"

/-- The format of exactly this name. -/
def ofName? (s : String) : Option RecordFormat :=
  [lines, document].find? (·.name == s)

/-- The format that a text names in any case; lines have two names. -/
def parse (s : String) : Except String RecordFormat :=
  let name := Text.asciiLower s
  if name == "jsonl" || name == "ndjson" then .ok lines
  else if name == "json" then .ok document
  else .error ("unknown input format '" ++ name ++ "' (expected jsonl or json)")

end RecordFormat

/-- An input of a load: lines, a document, or records that are already there. -/
inductive Input
  | lines (s : Lines)
  | elements (s : Elements)
  | records (rest : List Record) (given : Nat)

namespace Input

/-- An input over octets; reading past them may fail. -/
def ofOctets (format : RecordFormat) (octets : List UInt8) (fails : Bool) : Input :=
  match format with
  | .lines => lines ⟨octets, fails, 0⟩
  | .document => elements (.unread octets fails)

def next : Input → Except LoadError (Option Record) × Input
  | lines s => let (r, s) := s.next; (r, lines s)
  | elements s => let (r, s) := s.next; (r, elements s)
  | records [] given => (.ok none, records [] given)
  | records (r :: rest) given => (.ok (some r), records rest (given + 1))

def position : Input → Nat
  | lines s => s.line
  | elements s => s.position
  | records _ given => given

def size : Input → Nat
  | lines s => s.unread.length
  | elements s => s.size
  | records rest _ => rest.length

def source : Source Input where
  next := next
  position := position
  size := size
  size_lt_of_record {s s' r} h := by
    cases s with
    | lines s =>
      simp only [next, Prod.mk.injEq] at h
      exact h.2 ▸ Lines.source.size_lt_of_record (s := s) (Prod.ext h.1 rfl)
    | elements s =>
      simp only [next, Prod.mk.injEq] at h
      exact h.2 ▸ Elements.source.size_lt_of_record (s := s) (Prod.ext h.1 rfl)
    | records rest given =>
      cases rest with
      | nil => simp [next] at h
      | cons r rest =>
        simp only [next, Prod.mk.injEq] at h
        simp [← h.2, size]
  size_lt_of_dataError {s s' e} h hd := by
    cases s with
    | lines s =>
      simp only [next, Prod.mk.injEq] at h
      exact h.2 ▸ Lines.source.size_lt_of_dataError (s := s) (Prod.ext h.1 rfl) hd
    | elements s =>
      simp only [next, Prod.mk.injEq] at h
      exact h.2 ▸ Elements.source.size_lt_of_dataError (s := s) (Prod.ext h.1 rfl) hd
    | records rest given => cases rest <;> simp [next] at h

end Input

end TableLoad
