namespace DecafCheck.Integer

def isDigit (c : Char) : Bool :=
  '0' ≤ c && c ≤ '9'

def isHexDigit (c : Char) : Bool :=
  isDigit c || ('a' ≤ c && c ≤ 'f') || ('A' ≤ c && c ≤ 'F')

/-- The value of a digit; letters count from ten. -/
def digit (c : Char) : Nat :=
  if isDigit c then c.toNat - '0'.toNat
  else if 'a' ≤ c && c ≤ 'f' then c.toNat - 'a'.toNat + 10
  else c.toNat - 'A'.toNat + 10

def ofDigits (base : Nat) (digits : List Char) : Nat :=
  digits.foldl (fun n c => n * base + digit c) 0

/-- The digits after a hexadecimal mark, if the spelling begins with one. -/
def hexDigits? : List Char → Option (List Char)
  | '0' :: 'x' :: digits => some digits
  | '0' :: 'X' :: digits => some digits
  | _ => none

def isHex (spelling : String) : Bool :=
  (hexDigits? spelling.toList).isSome

/-- The number that decimal digits spell, or hexadecimal digits of either case after `0x` or
`0X`. -/
def value (spelling : String) : Nat :=
  match hexDigits? spelling.toList with
  | some digits => ofDigits 16 digits
  | none => ofDigits 10 spelling.toList

end DecafCheck.Integer
