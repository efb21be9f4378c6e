import TableLoad.Json.Reader
import TableLoad.Record.Lines
import TableLoad.Record.Source

namespace TableLoad

/-- Records in one JSON document: the elements of an array, or a single object. The document is read
whole at the first call. -/
inductive Elements
  /-- Nothing was read yet; reading past the octets may fail. -/
  | unread (octets : List UInt8) (fails : Bool)
  /-- The elements still to come, and how many were given. -/
  | queued (elements : List Json) (given : Nat)
deriving Repr

namespace Elements

/-- The line on which reading a document stopped: line feeds count up to the octet that was
refused. An input that cannot be read to its end stops on a line only inside an array or object. -/
def faultLine (octets : List UInt8) (fails : Bool) : Json.Reader.Fault → Nat
  | .refused rest => 1 + octets.count Lines.newline - rest.count Lines.newline
  | .unfinished level => if fails && level == 0 then 0 else 1 + octets.count Lines.newline

/-- The elements of a document. -/
def load (octets : List UInt8) (fails : Bool) : Except LoadError (List Json) :=
  match Json.Reader.read octets with
  | .error f => .error (.decode (faultLine octets fails f) "invalid JSON document")
  | .ok v =>
    if fails then .error (.decode 0 "invalid JSON document")
    else match v.settled with
      | .array elements => .ok elements
      | .object ms => .ok [.object ms]
      | v => .error (.decode 1 ("expected an array of objects, got " ++ v.kindWithArticle))

/-- Gives the next of the queued elements. -/
def give (given : Nat) : List Json → Except LoadError (Option Record) × Elements
  | [] => (.ok none, .queued [] given)
  | v :: rest =>
    match v.record? with
    | some r => (.ok (some r), .queued rest (given + 1))
    | none =>
      (.error (.decode (given + 1)
        s!"element {given + 1} is {v.kindWithArticle}, expected an object"),
        .queued rest (given + 1))

def next : Elements → Except LoadError (Option Record) × Elements
  | queued elements given => give given elements
  | unread octets fails =>
    match load octets fails with
    | .ok elements => give 0 elements
    | .error e => (.error e, .queued [] 0)

def position : Elements → Nat
  | queued _ given => given
  | unread .. => 0

/-- How many calls can give something else than the end. -/
def size : Elements → Nat
  | queued elements _ => elements.length
  | unread octets fails =>
    1 + match load octets fails with
      | .ok elements => elements.length
      | .error _ => 0

theorem give_size {given : Nat} {elements : List Json}
    {result : Except LoadError (Option Record)} {s : Elements}
    (h : give given elements = (result, s)) : s.size < elements.length ∨ result = .ok none := by
  unfold give at h
  split at h
  · simp_all
  · split at h
    · simp only [Prod.mk.injEq] at h
      simp [← h.2, size]
    · simp only [Prod.mk.injEq] at h
      simp [← h.2, size]

theorem next_size {s s' : Elements} {result : Except LoadError (Option Record)}
    (h : next s = (result, s')) : s'.size < s.size ∨ result = .ok none := by
  unfold next at h
  split at h
  · exact give_size h
  · rename_i octets fails
    split at h
    · rename_i elements hl
      rcases give_size h with h | h
      · left
        simp only [size, hl] at h ⊢
        omega
      · exact Or.inr h
    · rename_i e hl
      simp only [Prod.mk.injEq] at h
      left
      simp [← h.2, size, hl]

def source : Source Elements where
  next := next
  position := position
  size := size
  size_lt_of_record h := by
    rcases next_size h with h | h
    · exact h
    · simp at h
  size_lt_of_dataError h _ := by
    rcases next_size h with h | h
    · exact h
    · simp at h

end Elements

end TableLoad
