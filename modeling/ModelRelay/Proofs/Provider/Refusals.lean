import ModelRelay.Proofs.Fallible
import ModelRelay.Provider.Adaptor

/-!
# Refusals

An answer outside the 200s is the provider's refusal. Two readers tell of it, one for whole answers
and one for streams, and both read its body for that: an error member says what is wrong, and of any
other body the text is quoted (`Describes`). **Of a body that arrived whole they tell the same**
(`refused_of_complete`), for then both have the same bytes and build the refusal of them. Of a body
that broke off, one reader reports the connection, and the other a refusal without a word of what
had arrived (`refused_of_broken`). On a body that falls silent one reader waits until the time for
the call is up and the other for ever (`refused_of_silent`).

The two differ in what they do first. The reader of whole answers reads the body before it looks at
the status, so that a body that is lost is all it has to tell; the reader of streams looks at the
status, and takes what it can get of the body. Only the first has a limit on its time, which is why
the second may have no result at all.

Besides, a whole answer can fail in few other ways: its body is lost, or it is not understood.
-/

set_option autoImplicit false

namespace ModelRelay

namespace Provider

/-! ## What a body tells

An error member is an object with a message and a type, or the message itself. The text of other
bodies is quoted up to a limit, and where there is none the status is told. -/

/-- A body is JSON with an error member that is an object or a text. -/
def HasEnvelope (body : List UInt8) : Prop :=
  ∃ value, Json.ofBytes? body = some value ∧
    ((∃ members, value.get? "error" = some (.object members)) ∨
      ∃ message, value.get? "error" = some (.string message))

/-- The text of a body, without blanks around it. -/
def bodyText (body : List UInt8) : String :=
  Text.trim (Utf8.lossy body)

/-- The message and the kind of a refusal with this body. -/
inductive Describes (provider : String) (status : Nat) (body : List UInt8) :
    String → Option String → Prop where
  | object {value : Json} {members : List (String × Json)}
      (read : Json.ofBytes? body = some value)
      (error : value.get? "error" = some (.object members)) :
      Describes provider status body
        (((members.lookup "message").bind Json.string?).getD "unknown upstream error")
        ((members.lookup "type").bind Json.string?)
  | text {value : Json} {message : String} (read : Json.ofBytes? body = some value)
      (error : value.get? "error" = some (.string message)) :
      Describes provider status body message none
  | quoted (bare : ¬ HasEnvelope body) (notBlank : bodyText body ≠ "")
      (short : (bodyText body).length ≤ 512) :
      Describes provider status body (bodyText body) none
  | clipped (bare : ¬ HasEnvelope body) (long : 512 < (bodyText body).length) :
      Describes provider status body
        (String.ofList ((bodyText body).toList.take 512 ++ ['.', '.', '.'])) none
  | blank (bare : ¬ HasEnvelope body) (blank : bodyText body = "") :
      Describes provider status body (provider ++ " returned status " ++ status.repr) none

variable {provider : String} {status : Nat} {body : List UInt8}

theorem ofList_ne_empty {s : List Char} (h : s ≠ []) : String.ofList s ≠ "" := by
  intro he
  exact h (by simpa using congrArg String.toList he)

/-- Only an error member can leave a message empty. -/
theorem Describes.message_ne_empty {message : String} {kind : Option String}
    (h : Describes provider status body message kind) (bare : ¬ HasEnvelope body) :
    message ≠ "" := by
  cases h with
  | object read error => exact absurd ⟨_, read, .inl ⟨_, error⟩⟩ bare
  | text read error => exact absurd ⟨_, read, .inr ⟨_, error⟩⟩ bare
  | quoted _ notBlank => exact notBlank
  | clipped => exact ofList_ne_empty (by simp)
  | blank =>
    intro he
    have hlength := congrArg String.length he
    simp [String.length_append] at hlength

theorem refusalOf?_eq_none {value : Json}
    (hobject : ∀ members, value.get? "error" ≠ some (.object members))
    (htext : ∀ message, value.get? "error" ≠ some (.string message)) :
    refusalOf? provider status value = none := by
  rw [refusalOf?]
  split
  · exact absurd ‹_› (hobject _)
  · exact absurd ‹_› (htext _)
  · rfl

theorem describes_rawMessage (provider : String) (status : Nat) (bare : ¬ HasEnvelope body) :
    Describes provider status body (rawMessage provider status body) none := by
  have htext : (bodyText body).toList = Text.trimChars (Utf8.lossy body).toList :=
    String.toList_ofList
  have hlength : (bodyText body).length = (Text.trimChars (Utf8.lossy body).toList).length :=
    String.length_ofList
  rw [rawMessage]
  split
  · next hblank => exact .blank bare (by rw [bodyText, Text.trim, hblank])
  · next hsome =>
    rw [← htext] at hsome ⊢
    rw [clip, quotedLength]
    split
    · next hshort =>
      rw [String.ofList_toList]
      exact .quoted bare (fun he => hsome (by rw [he]; rfl)) hshort
    · next hlong => exact .clipped bare (Nat.lt_of_not_le hlong)

/-- The refusal of a body says what the body tells. -/
theorem exists_describes (provider : String) (status : Nat) (body : List UInt8) :
    ∃ message kind, refusal provider status body = .refused provider status message kind ∧
      Describes provider status body message kind := by
  by_cases henvelope : HasEnvelope body
  · obtain ⟨value, hread, ⟨members, herror⟩ | ⟨message, herror⟩⟩ := henvelope
    · refine ⟨_, _, ?_, .object hread herror⟩
      simp only [refusal, hread, Option.bind_some, refusalOf?, herror]
      rfl
    · refine ⟨_, _, ?_, .text hread herror⟩
      simp only [refusal, hread, Option.bind_some, refusalOf?, herror]
      rfl
  · refine ⟨_, none, ?_, describes_rawMessage provider status henvelope⟩
    -- JSON without an error member is quoted like a body that is no JSON.
    have hnone : (Json.ofBytes? body).bind (refusalOf? provider status) = none := by
      cases hread : Json.ofBytes? body with
      | none => rfl
      | some value =>
        exact refusalOf?_eq_none (fun members h => henvelope ⟨value, hread, .inl ⟨members, h⟩⟩)
          (fun message h => henvelope ⟨value, hread, .inr ⟨message, h⟩⟩)
    rw [refusal, hnone, Option.getD_none]

/-! ## The two readers

What each makes of an answer outside the 200s, by the way in which its body ends. -/

theorem refused_of_refusalOf? {provider : String} {status : Nat} {value : Json} {e : RelayError}
    (h : refusalOf? provider status value = some e) :
    ∃ message kind, e = .refused provider status message kind := by
  rw [refusalOf?] at h
  split at h
  · exact ⟨_, _, (Option.some.inj h).symm⟩
  · exact ⟨_, _, (Option.some.inj h).symm⟩
  · exact absurd h (by simp)

namespace Answer

variable {a : Answer}

theorem wholeBody?_of_complete (h : a.ending = .complete) : a.wholeBody? = .ok a.bytes := by
  rw [wholeBody?, h]

variable (provider) in
/-- A body that is lost is all that is told of a whole answer, whatever its status. -/
theorem readJson_of_lost {detail : String} (h : a.wholeBody? = .error detail) :
    a.readJson provider = .error (.unreachable provider (.bodyLost detail)) := by
  rw [readJson, h]
  rfl

variable (provider) in
/-- The reader of streams makes its refusal of what it gets of the body, if it is ever done with
it. -/
theorem ensureSuccess_of_refused (hstatus : a.isSuccess = false) :
    a.ensureSuccess provider
      = a.finalBody?.map fun body => .error (refusal provider a.status body) := by
  rw [ensureSuccess, hstatus]
  rfl

variable (provider) in
/-- An answer outside the 200s whose body is whole is the same refusal to both readers. -/
theorem refused_of_complete (hstatus : a.isSuccess = false) (h : a.ending = .complete) :
    a.readJson provider = .error (refusal provider a.status a.bytes) ∧
      a.ensureSuccess provider = some (.error (refusal provider a.status a.bytes)) := by
  constructor
  · rw [readJson, wholeBody?_of_complete h, hstatus]
    rfl
  · rw [ensureSuccess_of_refused provider hstatus, finalBody?, h]
    rfl

/-- Nothing is told of no bytes but that an answer came. -/
theorem refusal_nil (provider : String) (status : Nat) :
    refusal provider status []
      = .refused provider status (provider ++ " returned status " ++ status.repr) none := by
  have hread : Json.ofBytes? [] = none := by decide +kernel
  have htext : Utf8.lossy [] = "" := by decide +kernel
  rw [refusal, hread, rawMessage, htext]
  rfl

variable (provider) in
/-- An answer outside the 200s whose body broke off is no refusal to one reader, and one without its
body to the other. -/
theorem refused_of_broken {detail : String} (hstatus : a.isSuccess = false)
    (h : a.ending = .broken detail) :
    a.readJson provider = .error (.unreachable provider (.bodyLost detail)) ∧
      a.ensureSuccess provider = some (.error (.refused provider a.status
        (provider ++ " returned status " ++ a.status.repr) none)) := by
  constructor
  · exact readJson_of_lost provider (by rw [wholeBody?, h])
  · rw [ensureSuccess_of_refused provider hstatus, finalBody?, h, ← refusal_nil]
    rfl

variable (provider) in
/-- An answer outside the 200s whose body falls silent is no refusal to one reader, and the other is
never done with it. -/
theorem refused_of_silent (hstatus : a.isSuccess = false) (h : a.ending = .silent) :
    a.readJson provider = .error (.unreachable provider (.bodyLost "operation timed out")) ∧
      a.ensureSuccess provider = none := by
  constructor
  · exact readJson_of_lost provider (by rw [wholeBody?, h])
  · rw [ensureSuccess_of_refused provider hstatus, finalBody?, h]
    rfl

/-! ## How a whole answer fails

Stated for any property of failures, so that each use says what it needs of the few ways that there
are. -/

variable {P : RelayError → Prop}

/-- The ways in which an answer fails before it is looked at more closely. -/
theorem onlyFails_readJson
    (lost : ∀ detail, a.wholeBody? = .error detail → P (.unreachable provider (.bodyLost detail)))
    (refused : a.isSuccess = false → ∀ message kind, P (.refused provider a.status message kind))
    (erroneous : ∀ message kind, P (.refused provider 502 message kind))
    (undecodable : ∀ m, P (.undecodable provider (.body m))) :
    OnlyFails P (a.readJson provider) := by
  refine .bind (.mapError lost) fun body => ?_
  cases hstatus : a.isSuccess with
  | false =>
    obtain ⟨message, kind, hrefusal, -⟩ := exists_describes provider a.status body
    exact .error (hrefusal ▸ refused hstatus message kind)
  | true =>
    refine .bind (.mapError fun m _ => undecodable m) fun value => ?_
    cases hrefusal : refusalOf? provider 502 value with
    | none => exact .ok value
    | some e =>
      obtain ⟨message, kind, rfl⟩ := refused_of_refusalOf? hrefusal
      exact .error (erroneous message kind)

/-- The reader of streams fails by a refusal only. -/
theorem onlyFails_ensureSuccess
    (refused : a.isSuccess = false → ∀ message kind, P (.refused provider a.status message kind))
    {result : Except RelayError Answer} (h : a.ensureSuccess provider = some result) :
    OnlyFails P result := by
  rw [ensureSuccess] at h
  split at h
  · exact Option.some.inj h ▸ .ok a
  · next hstatus =>
    obtain ⟨body, -, rfl⟩ := Option.map_eq_some_iff.mp h
    obtain ⟨message, kind, hrefusal, -⟩ := exists_describes provider a.status body
    exact .error (hrefusal ▸ refused (by simpa using hstatus) message kind)

end Answer

end Provider

namespace Adaptor

variable (a : Adaptor) {P : RelayError → Prop}

/-- An adaptor that is not ready fails by itself. -/
theorem onlyFails_ensureReady (internal : ∀ fault, P (.internal fault)) :
    OnlyFails P a.ensureReady := by
  rw [ensureReady]
  split
  · exact .ok ()
  · exact .error (internal _)

/-- A whole body that is JSON fails only by not being understood. -/
theorem onlyFails_outcomeOf (route : Route) (fresh : Fresh) (body : Json)
    (undecodable : ∀ fault, P (.undecodable a.provider fault))
    (internal : ∀ fault, P (.internal fault)) : OnlyFails P (a.outcomeOf route fresh body) := by
  rw [outcomeOf]
  cases hfamily : a.family with
  | openai =>
    rw [provider, hfamily] at undecodable
    refine .bind (.mapError fun _ _ => undecodable _) fun glance => .bind ?_ fun _ => .ok _
    rw [OpenAi.withUsage.eq_def]
    split
    · split <;> exact .ok _
    · exact .error (internal _)
  | anthropic | vertexClaude =>
    exact .bind (.mapError fun _ _ => undecodable _) fun answer => .ok _

end Adaptor

end ModelRelay
