namespace Ordo.Text

-- What is left of `cs`, or all of it.
abbrev Rest (cs : List Char) := { rest : List Char // rest.length ≤ cs.length }

-- The length of the UTF-8 form of `cs` in bytes.
def byteLength : List Char → Nat
  | []      => 0
  | c :: cs => c.utf8Size + byteLength cs

-- The first byte of the UTF-8 form of a character.
def leadByte (c : Char) : Nat :=
  if c.toNat < 0x80 then c.toNat
  else if c.toNat < 0x800 then 0xC0 + c.toNat / 0x40
  else if c.toNat < 0x10000 then 0xE0 + c.toNat / 0x1000
  else 0xF0 + c.toNat / 0x40000

theorem length_dropWhile_le (p : Char → Bool) (cs : List Char) :
    (cs.dropWhile p).length ≤ cs.length :=
  (List.dropWhile_sublist _).length_le

theorem length_lt_of_dropWhile {p : Char → Bool} {cs rest : List Char} {c : Char}
    (h : cs.dropWhile p = c :: rest) : rest.length < cs.length := by
  have := length_dropWhile_le p cs
  rw [h, List.length_cons] at this
  exact this

-- The pieces of `cs` between the characters `separator`; there is one more of them than separators.
def splitList (separator : Char) : List Char → List (List Char)
  | [] => [[]]
  | c :: cs =>
    if c == separator then
      [] :: splitList separator cs
    else
      match splitList separator cs with
      | [] => [[c]]
      | piece :: pieces => (c :: piece) :: pieces

-- The non-empty pieces of a text between slashes.
def segments (s : String) : List String :=
  ((splitList '/' s.toList).filter (!·.isEmpty)).map String.ofList

-- The ranges of code points with the Unicode property `White_Space`.
def blankRanges : List (Nat × Nat) := [
  (0x9, 0xD), (0x20, 0x20), (0x85, 0x85), (0xA0, 0xA0), (0x1680, 0x1680), (0x2000, 0x200A),
  (0x2028, 0x2029), (0x202F, 0x202F), (0x205F, 0x205F), (0x3000, 0x3000)
]

def isBlank (c : Char) : Bool :=
  blankRanges.any fun (first, last) => first ≤ c.toNat && c.toNat ≤ last

-- Drops the longest ends of `cs` that consist of characters in `p`.
def stripped (p : Char → Bool) (cs : List Char) : List Char :=
  ((cs.dropWhile p).reverse.dropWhile p).reverse

-- The text without the blank characters at its two ends.
def trim (s : String) : String :=
  String.ofList (stripped isBlank s.toList)

-- The text without the slashes at its two ends.
def trimSlashes (s : String) : String :=
  String.ofList (stripped (· == '/') s.toList)

def isAllBlank (s : String) : Bool :=
  s.toList.all isBlank

def hexDigits (n : Nat) : String :=
  String.ofList (Nat.toDigits 16 n)

-- The decimal digits of `n` behind its sign, with zeros between the two up to `width` columns. The
-- sign takes a column of its own.
def padded (width : Nat) (n : Int) : String :=
  let sign := if n < 0 then "-" else ""
  let digits := toString n.natAbs
  sign ++ String.ofList (List.replicate (width - sign.length - digits.length) '0') ++ digits

end Ordo.Text
