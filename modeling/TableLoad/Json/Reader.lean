import TableLoad.Json.Basic
import TableLoad.Text.HexDigit
import TableLoad.Text.Utf8

namespace TableLoad.Json.Reader

/-- Why octets are not a JSON text. -/
inductive Fault
  /-- An octet was refused; `rest` is what stands behind it. -/
  | refused (rest : List UInt8)
  /-- The octets end too early, with so many arrays and objects open. -/
  | unfinished (level : Nat)
deriving DecidableEq, Repr

/-- What has been read of a number. -/
structure Digits where
  negative : Bool
  /-- What the digits that were taken spell. -/
  significand : Nat
  /-- Digits before the point that were left out. -/
  dropped : Nat
  /-- Digits behind the point that were taken. -/
  places : Nat
  exponentNegative : Bool
  exponent : Nat
deriving DecidableEq, Repr

/-- Where the reader of a number stands. Before and behind the point digits are taken as long as
the significand fits 64 bits; the first one that does not fit and those behind it are left out. -/
inductive NumberStage
  | sign | zero | whole | wholeRest | point | fraction | fractionRest
  | mark | exponentSign | exponent
deriving DecidableEq, Repr

/-- Where the reader of a string stands; `high` is the first half of a surrogate pair that the
next escape has to complete. -/
inductive StringStage
  | plain
  | escape
  | hex (digits : List UInt8) (high : Option Nat)
  | secondEscape (high : Nat)
  | secondHex (high : Nat)
deriving DecidableEq, Repr

/-- An array or object that is open: what it holds so far, the latest first, and the key whose
value is being read. -/
inductive Frame
  | array (held : List Json)
  | object (held : List (String × Json)) (key : String)
deriving Repr

inductive Mode
  /-- A value must come; right behind `[` the bracket may also close. -/
  | value (mayClose : Bool)
  /-- Inside `null`, `true` or `false`: the letters still owed. -/
  | word (owed : List UInt8) (result : Json)
  | number (stage : NumberStage) (digits : Digits)
  /-- Inside a string, its octets latest first; a key belongs to an object with these members. -/
  | string (stage : StringStage) (octets : List UInt8) (keyOf : Option (List (String × Json)))
  /-- A key must come; right behind `{` the brace may also close. -/
  | key (held : List (String × Json)) (mayClose : Bool)
  | colon (held : List (String × Json)) (key : String)
  /-- A value is complete. -/
  | after (v : Json)
deriving Repr

/-- A machine that reads JSON octet by octet. Its stack holds the open arrays and objects; the mode
says what may come next inside the innermost one. It refuses at the first octet that cannot continue
a text, so the place of a fault is where it stopped. -/
structure State where
  mode : Mode
  frames : List Frame
deriving Repr

/-- How many arrays and objects are open. An object that waits for a key has no frame yet. -/
def State.level (s : State) : Nat :=
  s.frames.length + match s.mode with
    | .key .. | .colon .. | .string _ _ (some _) => 1
    | _ => 0

/-- How many arrays and objects may be open at once. -/
def maxDepth : Nat := 127

def isSpace (b : UInt8) : Bool :=
  b == 0x20 || b == 0x09 || b == 0x0A || b == 0x0D

def isDigit (b : UInt8) : Bool :=
  0x30 ≤ b && b ≤ 0x39

def digitValue (b : UInt8) : Nat :=
  b.toNat - 0x30

/-- The value of hexadecimal digits, the latest first. -/
def hexNumber? : List UInt8 → Option Nat
  | [] => some 0
  | b :: bs => do
    let high ← hexNumber? bs
    let low ← Text.hexDigitValue? (Char.ofNat b.toNat)
    return high * 16 + low

/-- A number without point and exponent, none of its digits left out: an integer where one fits,
and the float nearest to it elsewhere; minus zero is a float. -/
def wholeNumber (d : Digits) : Number :=
  if !d.negative then .int d.significand
  else if d.significand = 0 then .float (.zero true)
  else if d.significand ≤ 0x8000000000000000 then .int (-d.significand)
  else .float (.ofRatio true d.significand 1)

/-- Every other number; none when it lies outside the range of floats. -/
def floatNumber? (d : Digits) : Option Number :=
  let e : Int := if d.exponentNegative then -d.exponent else d.exponent
  let x := Binary64.scaled d.negative d.significand (e + d.dropped - d.places)
  if x.isFinite then some (.float x) else none

/-- The number, if it may end here. -/
def numberAt? : NumberStage → Digits → Option Number
  | .zero, d | .whole, d => some (wholeNumber d)
  | .wholeRest, d | .fraction, d | .fractionRest, d | .exponent, d => floatNumber? d
  | _, _ => none

/-- A digit before the point. -/
def wholeDigit (d : Digits) (digit : Nat) : NumberStage × Digits :=
  let n := d.significand * 10 + digit
  if n < UInt64.size then (.whole, { d with significand := n })
  else (.wholeRest, { d with dropped := d.dropped + 1 })

/-- A digit behind the point. -/
def fractionDigit (d : Digits) (digit : Nat) : NumberStage × Digits :=
  let n := d.significand * 10 + digit
  if n < UInt64.size then (.fraction, { d with significand := n, places := d.places + 1 })
  else (.fractionRest, d)

/-- A digit of the exponent; one that takes it past 31 bits is refused, unless the number is zero
anyway. -/
def exponentDigit? (d : Digits) (digit : Nat) : Option (NumberStage × Digits) :=
  let n := d.exponent * 10 + digit
  if n < 0x80000000 || d.exponentNegative || d.significand == 0 then
    some (.exponent, { d with exponent := n })
  else none

/-- A point or the mark of an exponent. -/
def numberPunctuation? (d : Digits) (pointMayCome : Bool) (b : UInt8) :
    Option (NumberStage × Digits) :=
  if b == 0x2E && pointMayCome then some (.point, d)
  else if b == 0x65 || b == 0x45 then some (.mark, d)
  else none

/-- One more octet of a number, if it may go on so. -/
def numberStep (stage : NumberStage) (d : Digits) (b : UInt8) : Option (NumberStage × Digits) :=
  let digit := if isDigit b then some (digitValue b) else none
  match stage, digit with
  | .sign, some 0 => some (.zero, d)
  | .sign, some n => some (wholeDigit d n)
  | .whole, some n => some (wholeDigit d n)
  | .wholeRest, some _ => some (.wholeRest, { d with dropped := d.dropped + 1 })
  | .point, some n | .fraction, some n => some (fractionDigit d n)
  | .fractionRest, some _ => some (.fractionRest, d)
  | .mark, some n | .exponentSign, some n | .exponent, some n => exponentDigit? d n
  | .zero, none | .whole, none | .wholeRest, none => numberPunctuation? d true b
  | .fraction, none | .fractionRest, none => numberPunctuation? d false b
  | .mark, none =>
    if b == 0x2B then some (.exponentSign, d)
    else if b == 0x2D then some (.exponentSign, { d with exponentNegative := true })
    else none
  | _, _ => none

/-- What a single letter behind a backslash stands for. -/
def simpleEscape? (b : UInt8) : Option UInt8 :=
  if b == 0x22 || b == 0x5C || b == 0x2F then some b
  else if b == 0x62 then some 0x08
  else if b == 0x66 then some 0x0C
  else if b == 0x6E then some 0x0A
  else if b == 0x72 then some 0x0D
  else if b == 0x74 then some 0x09
  else none

/-- Puts the octets of a character in front of the reversed ones. -/
def pushChar (n : Nat) (octets : List UInt8) : List UInt8 :=
  (Text.Utf8.encode (String.singleton (Char.ofNat n))).reverse ++ octets

/-- What four hexadecimal digits mean in a string. -/
def unicodeEscape (n : Nat) (high : Option Nat) (octets : List UInt8) :
    Option (StringStage × List UInt8) :=
  match high with
  | none =>
    if 0xDC00 ≤ n && n ≤ 0xDFFF then none
    else if 0xD800 ≤ n && n ≤ 0xDBFF then some (.secondEscape n, octets)
    else some (.plain, pushChar n octets)
  | some h =>
    if 0xDC00 ≤ n && n ≤ 0xDFFF then
      some (.plain, pushChar (0x10000 + (h - 0xD800) * 0x400 + (n - 0xDC00)) octets)
    else none

/-- One more octet of a string, other than the quote that ends it. -/
def stringStep (stage : StringStage) (octets : List UInt8) (b : UInt8) :
    Option (StringStage × List UInt8) :=
  match stage with
  | .plain =>
    if b == 0x5C then some (.escape, octets)
    else if b < 0x20 then none else some (.plain, b :: octets)
  | .escape =>
    if b == 0x75 then some (.hex [] none, octets)
    else (simpleEscape? b).map fun c => (.plain, c :: octets)
  | .hex digits high =>
    if digits.length < 3 then some (.hex (b :: digits) high, octets)
    else do unicodeEscape (← hexNumber? (b :: digits)) high octets
  | .secondEscape high => if b == 0x5C then some (.secondHex high, octets) else none
  | .secondHex high => if b == 0x75 then some (.hex [] (some high), octets) else none

/-- Opens an array or object, unless too many are open. -/
def open? (frames : List Frame) (s : State) : Option State :=
  if frames.length < maxDepth then some s else none

def startNumber (negative : Bool) (significand : Nat) : Digits :=
  ⟨negative, significand, 0, 0, false, 0⟩

/-- The first octet of a value. -/
def startValue (b : UInt8) (frames : List Frame) : Option State :=
  if b == 0x22 then some ⟨.string .plain [] none, frames⟩
  else if b == 0x5B then open? frames ⟨.value true, .array [] :: frames⟩
  else if b == 0x7B then open? frames ⟨.key [] true, frames⟩
  else if b == 0x2D then some ⟨.number .sign (startNumber true 0), frames⟩
  else if b == 0x30 then some ⟨.number .zero (startNumber false 0), frames⟩
  else if isDigit b then some ⟨.number .whole (startNumber false (digitValue b)), frames⟩
  else if b == 0x6E then some ⟨.word [0x75, 0x6C, 0x6C] .null, frames⟩
  else if b == 0x74 then some ⟨.word [0x72, 0x75, 0x65] (.bool true), frames⟩
  else if b == 0x66 then some ⟨.word [0x61, 0x6C, 0x73, 0x65] (.bool false), frames⟩
  else none

/-- One octet behind a complete value. -/
def afterStep (v : Json) (b : UInt8) : List Frame → Option State
  | [] => if isSpace b then some ⟨.after v, []⟩ else none
  | .array held :: frames =>
    if isSpace b then some ⟨.after v, .array held :: frames⟩
    else if b == 0x2C then some ⟨.value false, .array (v :: held) :: frames⟩
    else if b == 0x5D then some ⟨.after (.array (v :: held).reverse), frames⟩
    else none
  | .object held key :: frames =>
    if isSpace b then some ⟨.after v, .object held key :: frames⟩
    else if b == 0x2C then some ⟨.key ((key, v) :: held) false, frames⟩
    else if b == 0x7D then some ⟨.after (.object ((key, v) :: held).reverse), frames⟩
    else none

/-- A closing quote: the octets must be UTF-8. -/
def endString (octets : List UInt8) (keyOf : Option (List (String × Json))) (frames : List Frame) :
    Option State :=
  match Text.Utf8.decode octets.reverse with
  | .error _ => none
  | .ok cs =>
    let s := String.ofList cs
    match keyOf with
    | none => some ⟨.after (.string s), frames⟩
    | some held => some ⟨.colon held s, frames⟩

/-- One octet; `none` if the text cannot go on with it. -/
def step (s : State) (b : UInt8) : Option State :=
  match s.mode with
  | .value mayClose =>
    if isSpace b then some s
    else match mayClose && b == 0x5D, s.frames with
      | true, .array held :: frames => some ⟨.after (.array held.reverse), frames⟩
      | _, frames => startValue b frames
  | .word owed result =>
    match owed with
    | [] => afterStep result b s.frames
    | [c] => if b == c then some ⟨.after result, s.frames⟩ else none
    | c :: cs => if b == c then some ⟨.word cs result, s.frames⟩ else none
  | .number stage d =>
    match numberStep stage d b with
    | some (stage, d) => some ⟨.number stage d, s.frames⟩
    | none => do afterStep (.number (← numberAt? stage d)) b s.frames
  | .string stage octets keyOf =>
    match stage, b == 0x22 with
    | .plain, true => endString octets keyOf s.frames
    | _, _ => do
      let (stage, octets) ← stringStep stage octets b
      return ⟨.string stage octets keyOf, s.frames⟩
  | .key held mayClose =>
    if isSpace b then some s
    else if b == 0x22 then some ⟨.string .plain [] (some held), s.frames⟩
    else if mayClose && b == 0x7D then some ⟨.after (.object held.reverse), s.frames⟩
    else none
  | .colon held key =>
    if isSpace b then some s
    else if b == 0x3A then some ⟨.value false, .object held key :: s.frames⟩
    else none
  | .after v => afterStep v b s.frames

/-- The value, if the text may end here. -/
def finish? (s : State) : Option Json :=
  match s.frames, s.mode with
  | [], .after v => some v
  | [], .number stage d => (numberAt? stage d).map .number
  | _, _ => none

/-- The machine at work. -/
def run : State → List UInt8 → Except Fault State
  | s, [] => .ok s
  | s, b :: bs =>
    match step s b with
    | some s => run s bs
    | none => .error (.refused bs)

def start : State :=
  ⟨.value false, []⟩

theorem run_append (s : State) (as bs : List UInt8) (t : State) (h : run s as = .ok t) :
    run s (as ++ bs) = run t bs := by
  induction as generalizing s with
  | nil => simp only [run, Except.ok.injEq] at h; simp [h]
  | cons a as ih =>
    simp only [run, List.cons_append] at h ⊢
    cases hs : step s a with
    | none => simp [hs] at h
    | some u => simp only [hs] at h ⊢; exact ih u h

/-- The value that the octets spell, as it was written. -/
def read (bytes : List UInt8) : Except Fault Json := do
  let s ← run start bytes
  match finish? s with
  | some v => .ok v
  | none => .error (.unfinished s.level)

end TableLoad.Json.Reader

namespace TableLoad.Json

/-- The value that a text spells, its members as they were written. -/
def readText? (s : String) : Option Json :=
  (Reader.read (Text.Utf8.encode s)).toOption

/-- The value that a text spells. -/
def parse? (s : String) : Option Json :=
  (readText? s).map settled

end TableLoad.Json
