import ModelRelay.Digest.Sha256
import ModelRelay.Http.Headers
import ModelRelay.Text.Blank

/-!
# Who is calling

A caller shows a key, and from then on is known by the key's digest; people who read logs see its
first and last characters, or nothing of a key that is too short for that. A request has an id, the
caller's or one made up here.
-/

set_option autoImplicit false

namespace ModelRelay.Http

/-- A caller as the relay knows it. -/
structure CallerId where
  /-- The digest of the key. -/
  id : String
  /-- What may be shown of the key. -/
  label : String
deriving DecidableEq, Repr

/-- The text behind a beginning that it must have. -/
def afterStart? (start s : String) : Option String :=
  if start.toList.isPrefixOf s.toList then some (String.ofList (s.toList.drop start.length))
  else none

/-- The key that headers show: a bearer token, else the key header. -/
def keyOf? (h : Headers) : Option String :=
  let bearer := (((h.text? "authorization").bind (afterStart? "Bearer ")).map Text.trim).filter
    (!·.isEmpty)
  (bearer.or ((h.text? "x-api-key").map Text.trim)).filter (!·.isEmpty)

/-- A key with its middle hidden; of a short one nothing shows. -/
def maskKey (key : String) : String :=
  let cs := key.toList
  if cs.length ≤ 8 then "***"
  else String.ofList (cs.take 3 ++ ['.', '.', '.'] ++ cs.drop (cs.length - 4))

def CallerId.ofKey (key : String) : CallerId :=
  ⟨Digest.Sha256.hex (Digest.Sha256.digest key.toUTF8.data.toList), maskKey key⟩

/-- What is said to a caller without a key. -/
def missingKey : String :=
  "Missing API key. Expected: Bearer <token> or x-api-key"

/-- The path of a target, without its query. -/
def pathOf (target : String) : String :=
  String.ofList (target.toList.takeWhile fun c => c != '?' && c != '#')

/-- A path of the Messages protocol. -/
def isMessagesPath (path : String) : Bool :=
  "/messages".toList.isSuffixOf path.toList

/-- The caller's id of a request. An id header that is there but holds none is not passed over. -/
def requestId? (h : Headers) : Option String :=
  if (h.get? "x-request-id").isSome then h.nonempty? "x-request-id"
  else h.nonempty? "x-correlation-id"

end ModelRelay.Http
