import ModelRelay.Proofs.Json.Records
import ModelRelay.Provider.Adaptor

/-!
# Whole answers of chat completions

A provider may send any JSON value in place of a completion. What the relay makes of it is one of
three things (`Answered`): the provider's refusal, a failure to understand, or the value itself,
completed by its counts. There is one gap. Records may come as lists, so **a list can read as a
completion**, and then there is no place in it for the counts: exactly there the call ends without
an answer (`answered_iff_not_list`).

The text of an answer is stated over the value (`contents`), not over what the decoder saw of it.
That the two are the same is proved field by field: a record of one field holds what stands in its
place, whether it came as an object or as a list, and the decoder takes nothing else from a choice.

What is said here begins with bytes that are a JSON text, in an answer in the 200s that came to its
end. Other answers fail before the value is looked at, and are treated with the failures of calls.
-/

set_option autoImplicit false

namespace ModelRelay

/-- What stands in the place of a record's only field: the member of that name, or the first item
of a list. -/
def Json.place? (name : String) : Json → Option Json
  | .object members => members.lookup name
  | .array (first :: _) => some first
  | _ => none

/-- An answer that is not streamed has no frames, and what it comes to is what is understood of
it. -/
theorem Adaptor.respond_whole {a : Adaptor} {route : Route} (hready : a.ready = true)
    (hwhole : route.stream = false) (fresh : Fresh) (sink : Option Sink)
    (answer : Provider.Answer) :
    a.respond route fresh sink answer = some ([], a.understand route fresh answer) := by
  unfold Adaptor.respond
  rw [Adaptor.ensureReady, if_pos hready]
  simp only [hwhole, Bool.false_eq_true, if_false]

/-- A value in the 200s is taken as it is, unless there is an error in it. -/
theorem Provider.readJson_of_value {provider : String} {answer : Provider.Answer} {value : Json}
    (hstatus : answer.isSuccess = true) (hending : answer.ending = .complete)
    (hvalue : Json.ofBytes? answer.bytes = some value) :
    answer.readJson provider
      = (Provider.refusalOf? provider 502 value).elim (.ok value) .error := by
  have hread := Json.ofBytes_json hvalue
  unfold Answer.readJson Answer.wholeBody?
  rw [hending]
  simp only [Except.mapError, bind, Except.bind, hstatus, hread]
  cases Provider.refusalOf? provider 502 value <;> rfl

namespace OpenAi

open Decoder

/-! ## The text of an answer

A completion is a list of choices, each with a message, each with a content. Any of these may be
missing, and counts as no text then. -/

/-- The text of a choice, if it has a message with a string as its content. -/
def choiceText? (name : String) (choice : Json) : Option String :=
  ((choice.place? name).bind (Json.place? "content")).bind Json.string?

/-- The string contents of all choices, in order. -/
def contents (value : Json) : List String :=
  match value.get? "choices" with
  | some (.array choices) => choices.filterMap (choiceText? "message")
  | _ => []

theorem fills_putField {α : Type} (name : String) (d : Decoder α) :
    Fills (putField name d) name d id :=
  fills_single fun _ _ _ => rfl

theorem fieldDecoder_ok {α : Type} {name : String} {d : Decoder α} {j : Json} {a : Option α}
    (h : fieldDecoder name d (.ofJson j) = .ok a) : d.Holds (j.place? name) a := by
  obtain ⟨slot, hrecord, h⟩ := exists_of_bind_ok h
  rw [← Except.ok.inj h]
  cases j with
  | object members => exact (fills_putField name (optional d)).holds hrecord rfl
  | array items =>
    cases items with
    | nil =>
      rw [← Except.ok.inj hrecord]
      rfl
    | cons first rest =>
      obtain ⟨mid, hput, hrest⟩ := exists_of_bind_ok hrecord
      obtain ⟨-, b, hb, hmid⟩ := (fills_putField name (optional d)).filled hput
      -- A second item would be one too many.
      cases rest with
      | nil =>
        rw [← Except.ok.inj hrest, show mid = some b from hmid]
        exact holds_of_optional_ok hb
      | cons second rest => nomatch hrest
  | null | bool _ | number n | string _ => nomatch hrecord

theorem choiceDecoder_ok {name : String} {j : Json} {t : Option String}
    (h : choiceDecoder name (.ofJson j) = .ok t) : t = choiceText? name j := by
  obtain ⟨message, hmessage, h⟩ := exists_of_bind_ok h
  rw [← Except.ok.inj h, choiceText?]
  have hholds := fieldDecoder_ok hmessage
  generalize j.place? name = found at hholds
  match found, hholds with
  | none, hholds => rw [hholds]; rfl
  | some .null, hholds => rw [hholds]; rfl
  | some (.object members), ⟨content, hcontent, hm⟩ =>
    rw [hm]
    exact string?_of_holds (fieldDecoder_ok hcontent)
  | some (.array items), ⟨content, hcontent, hm⟩ =>
    rw [hm]
    exact string?_of_holds (fieldDecoder_ok hcontent)
  | some (.string _), ⟨_, hcontent, _⟩ => nomatch hcontent
  | some (.number _), ⟨_, hcontent, _⟩ => nomatch hcontent
  | some (.bool _), ⟨_, hcontent, _⟩ => nomatch hcontent

theorem Glance.put_kept {name field : String} {s s' : Glance.Slots} {r : Reading}
    (h : Glance.put name s field r = .ok s') :
    (field ≠ "choices" → s'.choices = s.choices) ∧ (field ≠ "usage" → s'.usage = s.usage) := by
  unfold Glance.put at h
  split at h
  all_goals
    obtain ⟨_, -, h⟩ := exists_of_bind_ok h
    rw [← Except.ok.inj h]
    simp

theorem fills_choices (name : String) :
    Fills (Glance.put name) "choices" (list (choiceDecoder name)) (·.choices) :=
  .of_set (fun _ _ => rfl) (fun _ _ => rfl) fun hne h => (Glance.put_kept h).1 hne

theorem fills_usage (name : String) :
    Fills (Glance.put name) "usage" (optional UsageReport.decoder) (·.usage) :=
  .of_set (fun _ _ => rfl) (fun _ _ => rfl) fun hne h => (Glance.put_kept h).2 hne

/-- **The text that is read of a completion is what its choices say**, one after the other. -/
theorem text_of_ofAnswer {members : List (String × Json)} {g : Glance}
    (h : Decoder.ofJson Glance.ofAnswer (.object members) = .ok g) :
    g.text = String.join (contents (.object members)) := by
  obtain ⟨s, hmembers, h⟩ := exists_of_bind_ok (of_mapError_ok h)
  obtain ⟨texts, htexts, h⟩ := exists_of_bind_ok h
  obtain ⟨found, hfound, hlist⟩ := (fills_choices "message").lookup hmembers rfl (need_ok htexts)
  obtain ⟨choices, rfl, hall⟩ := list_ok hlist
  have hmap : texts = choices.map (choiceText? "message") := by
    clear hlist hfound htexts h
    induction hall with
    | nil => rfl
    | cons hchoice _ ih => rw [choiceDecoder_ok hchoice, ih, List.map_cons]
  rw [← Except.ok.inj h, Glance.text, hmap, List.filterMap_map, contents, Json.get?, hfound]
  rfl

/-! ## The answer as it is passed on

Counts are put in where there are none, and nothing else of the value is touched. -/

/-- Members without counts: there are none, or null stands for them. -/
def LacksUsage (members : List (String × Json)) : Prop :=
  members.lookup "usage" = none ∨ members.lookup "usage" = some .null

theorem withUsage_of_lacks {members : List (String × Json)} (h : LacksUsage members)
    (usage : Chat.Usage) :
    withUsage usage (.object members)
      = .ok (.object (Json.insertSorted "usage" usage.toJson.canonical members)) := by
  rw [withUsage]
  rcases h with h | h <;> rw [h]

theorem withUsage_of_not_lacks {members : List (String × Json)} (h : ¬ LacksUsage members)
    (usage : Chat.Usage) : withUsage usage (.object members) = .ok (.object members) := by
  rw [withUsage]
  split
  · rename_i hnone
    exact absurd (Or.inl hnone) h
  · rename_i hnull
    exact absurd (Or.inr hnull) h
  · rfl

/-- Counts that are left out are not reported. -/
theorem usage_of_lacks {members : List (String × Json)} {g : Glance} (h : LacksUsage members)
    (hg : Decoder.ofJson Glance.ofAnswer (.object members) = .ok g) : g.usage = none := by
  obtain ⟨s, hmembers, hg⟩ := exists_of_bind_ok (of_mapError_ok hg)
  obtain ⟨texts, -, hg⟩ := exists_of_bind_ok hg
  have hholds := (fills_usage "message").holds hmembers rfl
  rw [← Except.ok.inj hg]
  rcases h with h | h
  · rw [h] at hholds
    exact hholds
  · rw [h] at hholds
    exact hholds

/-- What a value that is sent in place of a completion may come to. -/
inductive Answered (route : Route) (value : Json) : Except RelayError Outcome → Prop
  /-- The value holds an error of the provider's. -/
  | refused {e : RelayError} : Provider.refusalOf? provider 502 value = some e →
      Answered route value (.error e)
  /-- The value is no completion. -/
  | undecodable {m : Mismatch} : Decoder.ofJson Glance.ofAnswer value = .error m →
      Answered route value (.error (.undecodable provider (.completion m)))
  /-- The value is passed on, with counts if it has none. -/
  | passed {members passed : List (String × Json)} {outcome : Outcome} :
      value = .object members → outcome.text = String.join (contents value) →
      outcome.body = some (.object passed) →
      (¬ LacksUsage members → passed = members) →
      (LacksUsage members → Json.Sorted passed ∧
        outcome.usage = .finalize {} route.promptTokens outcome.text ∧
        ∀ name, passed.lookup name
          = if name = "usage" then some outcome.usage.toJson.canonical
            else members.lookup name) →
      Answered route value (.ok outcome)

variable {route : Route} {value : Json}

/-- A list that reads as a completion. -/
def ReadsAsList (value : Json) : Prop :=
  ∃ items g, value = .array items ∧ Decoder.ofJson Glance.ofAnswer value = .ok g

theorem outcomeOf_of_understood {g : Glance} (h : Decoder.ofJson Glance.ofAnswer value = .ok g) :
    outcomeOf route value
      = (withUsage (.finalize (UsageReport.counts g.usage) route.promptTokens g.text) value).map
          fun body =>
            { text := g.text
              usage := .finalize (UsageReport.counts g.usage) route.promptTokens g.text
              body := some body } := by
  rw [outcomeOf, h]
  rfl

/-- There is no member to put counts under in a list, and the call is given up. -/
theorem outcomeOf_of_readsAsList (h : ReadsAsList value) :
    outcomeOf route value = .error (.internal .aborted) := by
  obtain ⟨items, g, rfl, hg⟩ := h
  rw [outcomeOf_of_understood hg]
  rfl

theorem answered_outcomeOf (hsorted : ∀ members, value = .object members → Json.Sorted members)
    (h : ¬ ReadsAsList value) : Answered route value (outcomeOf route value) := by
  cases hg : Decoder.ofJson Glance.ofAnswer value with
  | error m =>
    rw [outcomeOf, hg]
    exact .undecodable hg
  | ok g =>
    cases value with
    | array items => exact absurd ⟨items, g, rfl, hg⟩ h
    | null | bool _ | number n | string _ => nomatch of_mapError_ok hg
    | object members =>
      rw [outcomeOf_of_understood hg]
      by_cases hlacks : LacksUsage members
      · rw [withUsage_of_lacks hlacks]
        refine .passed rfl (text_of_ofAnswer hg) rfl (absurd hlacks) fun _ => ⟨?_, ?_, ?_⟩
        · exact (hsorted members rfl).insertSorted _ _
        · rw [usage_of_lacks hlacks hg]
          rfl
        · intro name
          exact Json.lookup_insertSorted "usage" name _ members
      · rw [withUsage_of_not_lacks hlacks]
        exact .passed rfl (text_of_ofAnswer hg) rfl (fun _ => rfl) fun hlacks' =>
          absurd hlacks' hlacks

/-- **Whatever JSON a provider sends in place of a completion, the call is answered, unless it is a
list that reads as one.**

A completion is an object, and a decoder of objects takes lists as well, field by field. The counts
are then put under a name, which an object has room for and a list has not. -/
theorem answered_iff_not_list (a : Adaptor) (route : Route) (fresh : Fresh) (sink : Option Sink)
    (answer : Provider.Answer) (value : Json) (hfamily : a.family = .openai)
    (hready : a.ready = true) (hwhole : route.stream = false) (hstatus : answer.isSuccess = true)
    (hending : answer.ending = .complete) (hvalue : Json.ofBytes? answer.bytes = some value) :
    ∃ result, a.respond route fresh sink answer = some ([], result) ∧
      (Answered route value result ↔ ¬ ReadsAsList value) ∧
      (ReadsAsList value → result = .error (.internal .aborted)) := by
  refine ⟨_, Adaptor.respond_whole hready hwhole fresh sink answer, ?_⟩
  generalize hunderstood : a.understand route fresh answer = result
  have hprovider : a.provider = provider := by
    rw [Adaptor.provider, hfamily]
    rfl
  -- The value is read first, and a refusal in it goes before everything else.
  have hresult : result = (answer.readJson provider).bind (outcomeOf route) := by
    rw [← hunderstood, Adaptor.understand, hprovider]
    congr 1
    funext body
    rw [Adaptor.outcomeOf, hfamily]
  rw [Provider.readJson_of_value hstatus hending hvalue] at hresult
  cases hrefusal : Provider.refusalOf? provider 502 value with
  | some e =>
    rw [hrefusal] at hresult
    have hnot : ¬ ReadsAsList value := by
      rintro ⟨items, g, rfl, -⟩
      nomatch hrefusal
    rw [hresult]
    exact ⟨⟨fun _ => hnot, fun _ => .refused hrefusal⟩, fun h => absurd h hnot⟩
  | none =>
    rw [hrefusal] at hresult
    have hresult : result = outcomeOf route value := hresult
    rw [hresult]
    refine ⟨⟨fun hanswered hlist => ?_, ?_⟩, outcomeOf_of_readsAsList⟩
    · rw [outcomeOf_of_readsAsList hlist] at hanswered
      cases hanswered with
      | refused h => nomatch hrefusal.symm.trans h
    · refine answered_outcomeOf fun members h => ?_
      rw [h] at hvalue
      exact Json.sorted_of_ofBytes? hvalue

/-- A completion without counts gets the estimates for them. -/
theorem greeting_is_answered :
    let route : Route :=
      { channel := { id := "c", family := .openai, baseUrl := "", apiKey := "" }, model := "m",
        protocol := .completions, stream := false, promptTokens := 7 }
    let answer : Provider.Answer :=
      { body := "\x7b\"choices\":[\x7b\"message\":\x7b\"content\":\"hi\"\x7d\x7d]\x7d".toUTF8 }
    let choices : Json := .array [.object [("message", .object [("content", .string "hi")])]]
    let counts : Json := .object [("completion_tokens", .ofNat 1), ("prompt_tokens", .ofNat 7),
      ("total_tokens", .ofNat 8)]
    let result : Except RelayError Outcome :=
      .ok { text := "hi", usage := ⟨7, 1, 8⟩,
            body := some (.object [("choices", choices), ("usage", counts)]) }
    Adaptor.respond { family := .openai, ready := true } route ⟨"id", 0, 0⟩ none answer
        = some ([], result) ∧
      Answered route (.object [("choices", choices)]) result := by
  intro route answer choices counts result
  have hvalue : Json.ofBytes? answer.bytes = some (.object [("choices", choices)]) := rfl
  have hresponse : Adaptor.respond { family := .openai, ready := true } route ⟨"id", 0, 0⟩ none
      answer = some ([], result) := rfl
  obtain ⟨told, htold, hanswered, -⟩ := answered_iff_not_list
    { family := .openai, ready := true } route ⟨"id", 0, 0⟩ none answer _ rfl rfl rfl rfl rfl hvalue
  obtain rfl : result = told :=
    (Prod.mk.inj (Option.some.inj (hresponse.symm.trans htold))).2
  refine ⟨hresponse, hanswered.mpr ?_⟩
  rintro ⟨items, g, hlist, -⟩
  nomatch hlist

/-- A list of no choices reads as a completion, and no answer comes of it. -/
theorem empty_list_is_not_answered :
    let route : Route :=
      { channel := { id := "c", family := .openai, baseUrl := "", apiKey := "" }, model := "m",
        protocol := .completions, stream := false, promptTokens := 7 }
    let answer : Provider.Answer := { body := "[[]]".toUTF8 }
    let result : Except RelayError Outcome := .error (.internal .aborted)
    Json.ofBytes? answer.bytes = some (.array [.array []]) ∧
      Adaptor.respond { family := .openai, ready := true } route ⟨"id", 0, 0⟩ none answer
        = some ([], result) ∧
      ¬ Answered route (.array [.array []]) result := by
  intro route answer result
  refine ⟨rfl, rfl, fun hanswered => ?_⟩
  have habandoned : Answered route (.array [.array []]) (.error (.internal .aborted)) := hanswered
  cases habandoned with
  | refused h => nomatch h

end OpenAi

end ModelRelay
