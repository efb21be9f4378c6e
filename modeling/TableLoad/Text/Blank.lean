namespace TableLoad.Text

/-- The characters of Unicode's `White_Space` property. -/
def isBlank (c : Char) : Bool :=
  let n := c.toNat
  (9 ≤ n && n ≤ 13) || n == 0x20 || n == 0x85 || n == 0xA0 || n == 0x1680 ||
    (0x2000 ≤ n && n ≤ 0x200A) || n == 0x2028 || n == 0x2029 || n == 0x202F || n == 0x205F ||
    n == 0x3000

/-- The characters left once the leading blanks are gone. -/
def trimStartChars (cs : List Char) : List Char :=
  cs.dropWhile isBlank

/-- The characters left once the trailing blanks are gone. -/
def trimEndChars (cs : List Char) : List Char :=
  (cs.reverse.dropWhile isBlank).reverse

/-- The characters between the leading and the trailing blanks. -/
def trimChars (cs : List Char) : List Char :=
  trimEndChars (trimStartChars cs)

/-- The text between its leading and its trailing blanks. -/
def trim (s : String) : String :=
  String.ofList (trimChars s.toList)

/-- A text is empty, or blank throughout. -/
def isAllBlank (s : String) : Bool :=
  s.toList.all isBlank

/-- The pieces between the places where a character stands; at least one. -/
def splitOnChar (sep : Char) : List Char → List (List Char)
  | [] => [[]]
  | c :: cs =>
    if c = sep then [] :: splitOnChar sep cs
    else match splitOnChar sep cs with
      | [] => [[c]]
      | piece :: pieces => (c :: piece) :: pieces

/-- ASCII letters in their lower-case form, every other character as it is. -/
def asciiLower (s : String) : String :=
  s.map Char.toLower

/-- Two texts agree up to the case of their ASCII letters. -/
def eqIgnoreAsciiCase (s t : String) : Bool :=
  asciiLower s == asciiLower t

/-- Whether one list of characters stands somewhere inside another. -/
def containsChars (needle : List Char) : List Char → Bool
  | [] => needle.isEmpty
  | c :: cs => needle.isPrefixOf (c :: cs) || containsChars needle cs

/-- Whether one text stands somewhere inside another. -/
def contains (needle s : String) : Bool :=
  containsChars needle.toList s.toList

end TableLoad.Text
