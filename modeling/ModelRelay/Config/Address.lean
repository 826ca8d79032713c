/-!
# Hosts of URLs

The host of a URL is a name, an address of four numbers, or an address in brackets. A name whose
last part is a number is meant as an address, so it has to be one. What is asked here is only
whether a host is well written.
-/

set_option autoImplicit false

namespace ModelRelay.Config.Address

/-- The value of a hexadecimal digit. -/
def hexDigit? (c : Char) : Option Nat :=
  if c.isDigit then some (c.toNat - '0'.toNat)
  else if 'a' ≤ c && c ≤ 'f' then some (c.toNat - 'a'.toNat + 10)
  else if 'A' ≤ c && c ≤ 'F' then some (c.toNat - 'A'.toNat + 10)
  else none

/-- The parts of a text between points. -/
def partsFrom (part : List Char) : List Char → List (List Char)
  | [] => [part.reverse]
  | '.' :: rest => part.reverse :: partsFrom [] rest
  | c :: rest => partsFrom (c :: part) rest

def parts (s : List Char) : List (List Char) :=
  partsFrom [] s

/-! ## Addresses of four numbers -/

/-- The number that digits of a base spell. -/
def spelled? (base : Nat) (s : List Char) : Option Nat :=
  s.foldlM (fun n c => (hexDigit? c).bind fun d => if d < base then some (n * base + d) else none) 0

/-- A number of an address. A zero in front says that it is octal, a zero and an x that it is
hexadecimal; with nothing behind, both are zero. -/
def number? : List Char → Option Nat
  | [] => none
  | '0' :: 'x' :: rest | '0' :: 'X' :: rest => spelled? 16 rest
  | '0' :: c :: rest => spelled? 8 (c :: rest)
  | s => spelled? 10 s

/-- The last part, without a point at the end, is a number. -/
def endsInNumber (s : List Char) : Bool :=
  let isNumber (part : List Char) : Bool :=
    (!part.isEmpty && part.all Char.isDigit) || (number? part).isSome
  match (parts s).reverse with
  | [] :: last :: _ => isNumber last
  | last :: _ => isNumber last
  | [] => false

/-- At most four numbers: all but the last a byte each, and the last fills the bytes that are
left. -/
def isFourNumbers (s : List Char) : Bool :=
  let ps := match (parts s).reverse with
    | [] :: before => before.reverse
    | _ => parts s
  match ps.mapM number? with
  | none => false
  | some numbers =>
    match numbers.reverse with
    | [] => false
    | last :: before =>
      before.length ≤ 3 && before.all (· ≤ 255) && last < Nat.pow 256 (4 - before.length)

/-! ## Addresses in brackets -/

/-- One byte in base 10, without needless zeros. -/
def isByte (s : List Char) : Bool :=
  match s with
  | [] => false
  | ['0'] => true
  | '0' :: _ => false
  | s => s.all Char.isDigit && (spelled? 10 s).any (· ≤ 255)

/-- Four bytes with points between them. -/
def isDottedTail (s : List Char) : Bool :=
  let ps := parts s
  ps.length == 4 && ps.all isByte

/-- The groups of an address in brackets, of which `count` have been read; `fuel` is a number of
characters. An empty group stands for as many zeros as are missing, and occurs once. The last two
groups may be written as four bytes. -/
def groupsFrom (count : Nat) (compressed : Bool) : Nat → List Char → Bool
  | 0, _ => false
  | _, [] => compressed || count == 8
  | fuel + 1, c :: rest =>
    if count == 8 then false
    else if c == ':' then if compressed then false else groupsFrom (count + 1) true fuel rest
    else
      let s := c :: rest
      let length := ((s.take 4).takeWhile fun d => (hexDigit? d).isSome).length
      match s.drop length with
      | [] => compressed || count + 1 == 8
      | '.' :: _ =>
        0 < length && count ≤ 6 && isDottedTail s && (compressed || count + 2 == 8)
      | ':' :: [] => false
      | ':' :: behind => groupsFrom (count + 1) compressed fuel behind
      | _ => false

def isGroups (s : List Char) : Bool :=
  match s with
  | ':' :: ':' :: rest => groupsFrom 1 true (rest.length + 1) rest
  | ':' :: _ => false
  | _ :: _ :: _ => groupsFrom 0 false (s.length + 1) s
  | _ => false

end ModelRelay.Config.Address
