import ModelRelay.Config.Address
import ModelRelay.Config.Validation
import ModelRelay.Json.Reader

/-!
# A reading of URLs

The program needs some `UrlParser` to check base URLs with, and this is the one it runs with. A URL
has to be absolute, and its host and its number of a TCP endpoint have to be well written. The
leniency of browsers is followed: control characters and blanks at the ends and line ends anywhere
do not count, and after the scheme of a web address any number of slashes may stand.

It stands in for a library, and not in every case: names and digits of other scripts are taken as
they are, where a library maps them to ASCII first and may refuse them then. The checks of a
configuration take any parser, so none of their properties rests on what is written here.
-/

set_option autoImplicit false

namespace ModelRelay.Config

/-- Why a text is no URL. -/
inductive UrlFault where
  | relative
  | emptyHost
  | domainName
  | domainCharacter
  | fourNumbers
  | groups
  | endpointNumber
deriving DecidableEq, Repr

def UrlFault.message : UrlFault → String
  | relative => "relative URL without a base"
  | emptyHost => "empty host"
  | domainName => "invalid international domain name"
  | domainCharacter => "invalid domain character"
  | fourNumbers => "invalid IPv4 address"
  | groups => "invalid IPv6 address"
  | endpointNumber => "invalid port number"

namespace Url

/-- What a scheme says about the rest of a URL. -/
inductive Kind where
  | web
  | file
  | other
deriving DecidableEq, Repr

def kindOf (scheme : String) : Kind :=
  if ["http", "https", "ws", "wss", "ftp"].contains scheme then .web
  else if scheme = "file" then .file
  else .other

def isEdge (c : Char) : Bool :=
  c.toNat ≤ 0x20

/-- The characters of a text that count. -/
def relevant (s : String) : List Char :=
  let cs := ((s.toList.dropWhile isEdge).reverse.dropWhile isEdge).reverse
  cs.filter fun c => c != '\t' && c != '\n' && c != '\r'

def isSchemeChar (c : Char) : Bool :=
  c.isAlphanum || c == '+' || c == '-' || c == '.'

/-- The scheme in lowercase, and what follows its colon. -/
def scheme? (cs : List Char) : Option (String × List Char) :=
  match cs.dropWhile isSchemeChar with
  | ':' :: rest =>
    if cs.head?.any Char.isAlpha then
      some (String.ofList ((cs.takeWhile isSchemeChar).map Char.toLower), rest)
    else none
  | _ => none

/-- A character that ends the part with the host. -/
def endsAuthority (kind : Kind) (c : Char) : Bool :=
  c == '/' || c == '?' || c == '#' || (kind != .other && c == '\\')

/-! ## Hosts -/

/-- The bytes of a text in which escaped bytes stand for themselves. -/
def decodePercent : List UInt8 → List UInt8
  | 0x25 :: a :: b :: rest =>
    match Json.Reader.hexValue? a, Json.Reader.hexValue? b with
    | some x, some y => (x * 16 + y).toUInt8 :: decodePercent rest
    | _, _ => 0x25 :: decodePercent (a :: b :: rest)
  | b :: rest => b :: decodePercent rest
  | [] => []

/-- An ASCII character that no name may hold. -/
def isForbidden (c : Char) : Bool :=
  c.toNat ≤ 0x20 || c.toNat == 0x7F || "#%/:<>?@[\\]^|".toList.contains c

/-- A character that no host of an unknown scheme may hold. -/
def isForbiddenOpaque (c : Char) : Bool :=
  c == '\x00' || " #/:<>?@[\\]^|".toList.contains c

/-- Checks a host in brackets. -/
def checkBrackets (host : List Char) : Except UrlFault Unit :=
  if host.getLast? == some ']' && Address.isGroups ((host.drop 1).dropLast) then .ok ()
  else .error .groups

/-- Checks the host of a known scheme. Names of other scripts are taken as they are. -/
def checkHost (host : List Char) : Except UrlFault Unit :=
  if host.head? == some '[' then checkBrackets host
  else
    match Utf8.strict? (decodePercent (String.ofList host).toUTF8.data.toList) with
    | none => .error .domainName
    | some name =>
      if name.toList.any isForbidden then .error .domainName
      else if name.isEmpty then .error .emptyHost
      else if Address.endsInNumber name.toList && !Address.isFourNumbers name.toList then
        .error .fourNumbers
      else .ok ()

/-- Checks the host of an unknown scheme. -/
def checkOpaque (host : List Char) : Except UrlFault Unit :=
  if host.head? == some '[' then checkBrackets host
  else if host.any isForbiddenOpaque then .error .domainCharacter
  else .ok ()

/-- The host at the head, up to a colon outside of brackets, and the rest. -/
def spanHost (host : List Char) (inBrackets : Bool) : List Char → List Char × List Char
  | [] => (host.reverse, [])
  | c :: rest =>
    if c == ':' && !inBrackets then (host.reverse, c :: rest)
    else
      let inBrackets := if c == '[' then true else if c == ']' then false else inBrackets
      spanHost (c :: host) inBrackets rest

/-- Checks the number behind a host: digits, and small enough. There may be none. A backslash ends
it even where it does not end a host. -/
def checkNumber (s : List Char) : Except UrlFault Unit :=
  match s with
  | ':' :: rest =>
    let digits := rest.takeWhile (· != '\\')
    if digits.all Char.isDigit &&
        digits.foldl (fun n d => n * 10 + (d.toNat - '0'.toNat)) 0 ≤ 65535 then .ok ()
    else .error .endpointNumber
  | _ => .ok ()

/-! ## The whole -/

/-- What stands behind the last at sign, and what before it, if there is one. -/
def splitUser (s : List Char) : Option (List Char) × List Char :=
  let host := (s.reverse.takeWhile (· != '@')).reverse
  if host.length = s.length then (none, s) else (some (s.take (s.length - host.length - 1)), host)

/-- The name of a user or a word that lets him in is given. -/
def isUser (user : Option (List Char)) : Bool :=
  user.any fun s => !s.isEmpty && s != [':']

/-- Checks what stands behind two slashes. -/
def checkAuthority (kind : Kind) (s : List Char) : Except UrlFault Unit := do
  let authority := s.takeWhile (!endsAuthority kind ·)
  let behind := s.drop authority.length
  let (user, hostAndNumber) := splitUser authority
  if user == some [] && hostAndNumber.isEmpty && !behind.isEmpty then throw .emptyHost
  let (host, number) := spanHost [] false hostAndNumber
  if kind == .web then
    if host.isEmpty then throw .emptyHost
    checkHost host
  else
    checkOpaque host
    if host.isEmpty && !number.isEmpty then throw .emptyHost
  checkNumber number
  if host.isEmpty && isUser user then throw .emptyHost

/-- A letter and a colon, as a drive is named. -/
def isDrive (host : List Char) : Bool :=
  match host with
  | [c, mark] => c.isAlpha && (mark == ':' || mark == '|')
  | _ => false

/-- Checks a URL of a file. -/
def checkFile (s : List Char) : Except UrlFault Unit :=
  match s with
  | a :: b :: rest =>
    let isSlash (c : Char) : Bool := c == '/' || c == '\\'
    if isSlash a && isSlash b then
      let host := rest.takeWhile (!endsAuthority .file ·)
      if host.isEmpty || isDrive host then .ok () else checkHost host
    else .ok ()
  | _ => .ok ()

/-- The scheme of an absolute URL. -/
def scheme (s : String) : Except UrlFault String := do
  let some (scheme, rest) := scheme? (relevant s) | throw .relative
  match kindOf scheme with
  | .web => checkAuthority .web (rest.dropWhile fun c => c == '/' || c == '\\')
  | .file => checkFile rest
  | .other =>
    match rest with
    | '/' :: '/' :: rest => checkAuthority .other rest
    | _ => pure ()
  return scheme

/-- The parser that the program runs with. -/
def parse : UrlParser :=
  fun s => (scheme s).mapError UrlFault.message

end Url

end ModelRelay.Config
