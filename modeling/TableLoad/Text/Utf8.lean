namespace TableLoad.Text.Utf8

/-- Why octets are not UTF-8. The reader refuses at the first octet that rules the text out, so the
length is that of the longest run that could still have begun a character. -/
structure Fault where
  /-- How many octets before the fault are whole characters. -/
  validUpTo : Nat
  /-- How many octets make up the fault; `none` when the text ends inside a character. -/
  length : Option Nat
deriving DecidableEq, Repr

def Fault.message (f : Fault) : String :=
  match f.length with
  | some n => s!"invalid utf-8 sequence of {n} bytes from index {f.validUpTo}"
  | none => s!"incomplete utf-8 byte sequence from index {f.validUpTo}"

/-- Where the reader stands. Inside a character it knows how many octets are owed, the range that
the next one must lie in, the bits so far and how many octets gave them. -/
inductive Progress
  | between
  | inside (owed : Nat) (low high : UInt8) (bits taken : Nat)

/-- What a first octet that is not ASCII announces: the narrower ranges of the second octet keep
out overlong forms, surrogates and numbers past the last character. -/
def Progress.ofLead (b : UInt8) : Option Progress :=
  if 0xC2 ≤ b && b ≤ 0xDF then some (.inside 1 0x80 0xBF (b.toNat - 0xC0) 1)
  else if b == 0xE0 then some (.inside 2 0xA0 0xBF 0 1)
  else if b == 0xED then some (.inside 2 0x80 0x9F 13 1)
  else if 0xE1 ≤ b && b ≤ 0xEF then some (.inside 2 0x80 0xBF (b.toNat - 0xE0) 1)
  else if b == 0xF0 then some (.inside 3 0x90 0xBF 0 1)
  else if 0xF1 ≤ b && b ≤ 0xF3 then some (.inside 3 0x80 0xBF (b.toNat - 0xF0) 1)
  else if b == 0xF4 then some (.inside 3 0x80 0x8F 4 1)
  else none

/-- Reads on with `start` octets behind the character at hand. -/
def decodeFrom : Progress → (start : Nat) → List UInt8 → Except Fault (List Char)
  | .between, _, [] => .ok []
  | .inside .., start, [] => .error ⟨start, none⟩
  | .between, start, b :: rest =>
    if b < 0x80 then (Char.ofNat b.toNat :: ·) <$> decodeFrom .between (start + 1) rest
    else match Progress.ofLead b with
      | some p => decodeFrom p start rest
      | none => .error ⟨start, some 1⟩
  | .inside owed low high bits taken, start, b :: rest =>
    if low ≤ b && b ≤ high then
      let bits := bits * 64 + (b.toNat - 0x80)
      if owed ≤ 1 then (Char.ofNat bits :: ·) <$> decodeFrom .between (start + taken + 1) rest
      else decodeFrom (.inside (owed - 1) 0x80 0xBF bits (taken + 1)) start rest
    else .error ⟨start, some taken⟩

/-- The characters that the octets spell. -/
def decode (bytes : List UInt8) : Except Fault (List Char) :=
  decodeFrom .between 0 bytes

/-- The octets of a text. -/
def encode (s : String) : List UInt8 :=
  s.toUTF8.toList

end TableLoad.Text.Utf8
