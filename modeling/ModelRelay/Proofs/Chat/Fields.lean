import ModelRelay.Proofs.Chat.Parsing

/-!
# What an object must hold to be a request

A turn or a request is read from an object without repeated names exactly if each of its fields is
what its decoder makes of the member of that name, and everything else is kept under `extra`
(`HeldIn`). So **what is found under each name settles what is read** (`Request.decoder_iff`), in
whatever order the members are written.

A field is of one of three kinds: it must be given (`Needs`), it may be left out (`Holds`), or it
has a value of its own when it is (`Defaults`). Each kind fixes the value of the field, so that what
is `HeldIn` an object is held by one request only. That is why it is enough to show that an object
is read at all: what is read must then be the request that was described.

Behind the fields stands the step that reads one member. For each field there is one lemma, that the
step fills its slot, and `put_keepsOthers` serves them all: it is the only place where the step of a
request is looked at by cases.
-/

set_option autoImplicit false

namespace ModelRelay

namespace Decoder

variable {α β : Type} {put : β → String → Reading → Except Mismatch β} {name : String}
  {d : Decoder α} {found : Option Json}

theorem Holds.unique {a b : Option α} (ha : d.Holds found a) (hb : d.Holds found b) : a = b := by
  cases found with
  | none => exact ha.trans hb.symm
  | some j =>
    have hboth := (optional_of_holds ha).symm.trans (optional_of_holds hb)
    exact Except.ok.inj hboth

theorem Fills.awaits_of_holds {slot : β → Option (Option α)} (h : Fills put name (optional d) slot)
    {s : β} (hfree : slot s = none) {a : Option α} (hholds : d.Holds found a) {j : Json}
    (hj : found = some j) : Awaits put name (.ofJson j) s := by
  rw [hj] at hholds
  exact h.awaits hfree (optional_of_holds hholds)

/-- What is found under the name of a field that must be there. -/
def Needs (d : Decoder α) (found : Option Json) (a : α) : Prop :=
  ∃ j, found = some j ∧ d (.ofJson j) = .ok a

theorem Needs.unique {a b : α} (ha : d.Needs found a) (hb : d.Needs found b) : a = b := by
  obtain ⟨j, hj, ha⟩ := ha
  obtain ⟨j', hj', hb⟩ := hb
  rw [Option.some.inj (hj.symm.trans hj')] at ha
  exact Except.ok.inj (ha.symm.trans hb)

theorem Fills.awaits_of_needs {slot : β → Option α} (h : Fills put name d slot) {s : β}
    (hfree : slot s = none) {a : α} (hneeds : d.Needs found a) {j : Json} (hj : found = some j) :
    Awaits put name (.ofJson j) s := by
  obtain ⟨j', hj', ha⟩ := hneeds
  rw [Option.some.inj (hj.symm.trans hj')]
  exact h.awaits hfree ha

/-- What is found under the name of a field that has a value of its own when it is left out. -/
def Defaults (d : Decoder α) (default : α) (found : Option Json) (a : α) : Prop :=
  found = none ∧ a = default ∨ d.Needs found a

theorem Defaults.unique {default a b : α} (ha : d.Defaults default found a)
    (hb : d.Defaults default found b) : a = b := by
  rcases ha with ⟨hnone, rfl⟩ | ha
  · rcases hb with ⟨-, rfl⟩ | ⟨j, hj, -⟩
    · rfl
    · nomatch hnone.symm.trans hj
  · rcases hb with ⟨hnone, -⟩ | hb
    · obtain ⟨j, hj, -⟩ := ha
      nomatch hnone.symm.trans hj
    · exact ha.unique hb

theorem Fills.awaits_of_defaults {slot : β → Option α} (h : Fills put name d slot) {s : β}
    (hfree : slot s = none) {default a : α} (hdefaults : d.Defaults default found a) {j : Json}
    (hj : found = some j) : Awaits put name (.ofJson j) s := by
  rcases hdefaults with ⟨hnone, -⟩ | hneeds
  · nomatch hnone.symm.trans hj
  · exact h.awaits_of_needs hfree hneeds hj

theorem Fills.defaults {slot : β → Option α} (h : Fills put name d slot) {s s' : β}
    {ms : List (String × Json)} (hok : Decoder.members put s (Reading.ofMembers ms) = .ok s')
    (hfree : slot s = none) (default : α) :
    d.Defaults default (ms.lookup name) ((slot s').getD default) := by
  rcases h.members hok with ⟨hnone, hslot⟩ | ⟨-, j, a, hj, ha, hslot⟩
  · rw [hslot, hfree]
    exact Or.inl ⟨hnone, rfl⟩
  · rw [hslot]
    exact Or.inr ⟨j, hj, ha⟩

end Decoder

namespace Chat

open Decoder

/-! ## Turns

Content that is left out is nothing, which is not the same as a member of the value null: neither is
read as a text. -/

namespace Message

/-- The members of a turn that have a field. -/
def fieldNames : List String :=
  ["role", "content", "name"]

/-- What is found in an object under each name, of a turn. -/
structure HeldIn (found : String → Option Json) (m : Message) : Prop where
  role : Role.decoder.Needs (found "role") m.role
  content : Content.decoder.Defaults .null (found "content") m.content
  name : text.Holds (found "name") m.name
  sorted : Json.Sorted m.extra
  extra : ∀ name, m.extra.lookup name
    = if name ∈ fieldNames then none else (found name).map Json.canonical

theorem HeldIn.unique {found : String → Option Json} {m m' : Message} (h : HeldIn found m)
    (h' : HeldIn found m') : m = m' := by
  have hextra : m.extra = m'.extra :=
    h.sorted.ext h'.sorted fun name => (h.extra name).trans (h'.extra name).symm
  obtain ⟨role, content, name, extra⟩ := m
  obtain ⟨role', content', name', extra'⟩ := m'
  rw [Message.mk.injEq]
  exact ⟨h.role.unique h'.role, h.content.unique h'.content, h.name.unique h'.name, hextra⟩

theorem fills_name : Fills put "name" (optional text) (·.name) := by
  refine .of_set (fun _ _ => rfl) (fun _ _ => rfl) fun hne h => ?_
  unfold put at h
  split at h
  case h_3 => exact absurd rfl hne
  all_goals
    obtain ⟨_, -, h⟩ := exists_of_bind_ok h
    rw [← Except.ok.inj h]

theorem gathers_extra : Gathers put fieldNames (·.extra) where
  kept hname h := by
    unfold put at h
    split at h
    case h_4 => simp_all [fieldNames]
    all_goals
      obtain ⟨_, -, h⟩ := exists_of_bind_ok h
      rw [← Except.ok.inj h]
  gathered hname h := by
    unfold put at h
    split at h
    case h_4 =>
      obtain ⟨value, hvalue, h⟩ := exists_of_bind_ok h
      rw [← Except.ok.inj h]
      exact ⟨value, hvalue, rfl⟩
    all_goals exact absurd (by simp [fieldNames]) hname

theorem exists_put {name : String} (hname : name ∉ fieldNames) (s : Slots) (j : Json) :
    ∃ s', put s name (.ofJson j) = .ok s' := by
  obtain ⟨value, hvalue⟩ := Reading.exists_toJson?_ofJson j
  simp only [fieldNames, List.mem_cons, List.not_mem_nil, or_false, not_or] at hname
  obtain ⟨h₁, h₂, h₃⟩ := hname
  unfold put
  split
  · exact absurd rfl h₁
  · exact absurd rfl h₂
  · exact absurd rfl h₃
  · rw [json, hvalue]
    exact ⟨_, rfl⟩

variable {ms : List (String × Json)} {m : Message}

theorem heldIn_of_decoder_ok (hnodup : (ms.map Prod.fst).Nodup)
    (hsingle : Reading.noSingleMembers (Reading.ofMembers ms) = true)
    (h : Message.decoder (.ofJson (.object ms)) = .ok m) : HeldIn (ms.lookup ·) m := by
  obtain ⟨s, hobject, h⟩ := exists_of_bind_ok h
  obtain ⟨role, hrole, h⟩ := exists_of_bind_ok h
  have hmembers : Decoder.members put {} (Reading.ofMembers ms) = .ok s := hobject
  rw [← Except.ok.inj h]
  refine ⟨fills_role.lookup hmembers rfl (need_ok hrole), fills_content.defaults hmembers rfl .null,
    fills_name.holds hmembers rfl, gathers_extra.sorted hmembers List.Pairwise.nil, fun name => ?_⟩
  rw [gathers_extra.members hmembers hsingle hnodup name]
  split
  · rfl
  · exact Option.or_none

/-- **What is found under each name settles which turn is read.** -/
theorem decoder_iff (hnodup : (ms.map Prod.fst).Nodup)
    (hsingle : Reading.noSingleMembers (Reading.ofMembers ms) = true) :
    Message.decoder (.ofJson (.object ms)) = .ok m ↔ HeldIn (ms.lookup ·) m := by
  refine ⟨heldIn_of_decoder_ok hnodup hsingle, fun h => ?_⟩
  obtain ⟨s, hs⟩ : ∃ s, Decoder.members put {} (Reading.ofMembers ms) = .ok s := by
    refine exists_members_of_takes fieldNames (fun s name j hname => exists_put hname s j) hnodup ?_
    intro name hname j hj
    simp only [fieldNames, List.mem_cons, List.not_mem_nil, or_false] at hname
    -- A member is taken if what it holds is what its field asks for, which is known for each.
    rcases hname with rfl | rfl | rfl
    · exact fills_role.awaits_of_needs rfl h.role hj
    · exact fills_content.awaits_of_defaults rfl h.content hj
    · exact fills_name.awaits_of_holds rfl h.name hj
  -- Every member was read. Only the role could still be missing, and it is there.
  obtain ⟨j, hj, hrole⟩ := h.role
  obtain ⟨read, hread⟩ : ∃ read, Message.decoder (.ofJson (.object ms)) = .ok read := by
    refine ⟨⟨m.role, s.content.getD .null, s.name.join, s.extra⟩, ?_⟩
    show (Decoder.members put {} (Reading.ofMembers ms) >>= fun s => need "role" s.role >>= _) = _
    rw [hs]
    show (need "role" s.role >>= _) = _
    rw [fills_role.slot_eq hs hj hrole]
    rfl
  -- Some request is read, and what is held settles which.
  rw [hread, (heldIn_of_decoder_ok hnodup hsingle hread).unique h]

end Message

/-! ## Requests

Fourteen members have a field, and only the model and the turns must be given. -/

namespace Request

/-- What is found in an object under each name, of a request. -/
structure HeldIn (found : String → Option Json) (r : Request) : Prop where
  model : text.Needs (found "model") r.model
  messages : (list Message.decoder).Needs (found "messages") r.messages
  system : SystemPrompt.decoder.Holds (found "system") r.system
  temperature : single.Holds (found "temperature") r.temperature
  maxTokens : word.Holds (found "max_tokens") r.maxTokens
  maxCompletionTokens : word.Holds (found "max_completion_tokens") r.maxCompletionTokens
  topP : single.Holds (found "top_p") r.topP
  topK : word.Holds (found "top_k") r.topK
  frequencyPenalty : single.Holds (found "frequency_penalty") r.frequencyPenalty
  presencePenalty : single.Holds (found "presence_penalty") r.presencePenalty
  stop : stopDecoder.Holds (found "stop") r.stop
  stopSequences : (list text).Holds (found "stop_sequences") r.stopSequences
  stream : bool.Defaults false (found "stream") r.stream
  user : text.Holds (found "user") r.user
  sorted : Json.Sorted r.extra
  extra : ∀ name, r.extra.lookup name
    = if name ∈ fieldNames then none else (found name).map Json.canonical

theorem HeldIn.unique {found : String → Option Json} {r r' : Request} (h : HeldIn found r)
    (h' : HeldIn found r') : r = r' := by
  have hextra : r.extra = r'.extra :=
    h.sorted.ext h'.sorted fun name => (h.extra name).trans (h'.extra name).symm
  cases r
  cases r'
  rw [Request.mk.injEq]
  exact ⟨h.model.unique h'.model, h.messages.unique h'.messages, h.system.unique h'.system,
    h.temperature.unique h'.temperature, h.maxTokens.unique h'.maxTokens,
    h.maxCompletionTokens.unique h'.maxCompletionTokens, h.topP.unique h'.topP,
    h.topK.unique h'.topK, h.frequencyPenalty.unique h'.frequencyPenalty,
    h.presencePenalty.unique h'.presencePenalty, h.stop.unique h'.stop,
    h.stopSequences.unique h'.stopSequences, h.stream.unique h'.stream, h.user.unique h'.user,
    hextra⟩

/-- Members of other names leave a slot alone. -/
structure KeepsOthers (name : String) (s s' : Slots) : Prop where
  model : name ≠ "model" → s'.model = s.model
  temperature : name ≠ "temperature" → s'.temperature = s.temperature
  maxTokens : name ≠ "max_tokens" → s'.maxTokens = s.maxTokens
  maxCompletionTokens : name ≠ "max_completion_tokens" →
    s'.maxCompletionTokens = s.maxCompletionTokens
  topP : name ≠ "top_p" → s'.topP = s.topP
  topK : name ≠ "top_k" → s'.topK = s.topK
  frequencyPenalty : name ≠ "frequency_penalty" → s'.frequencyPenalty = s.frequencyPenalty
  presencePenalty : name ≠ "presence_penalty" → s'.presencePenalty = s.presencePenalty
  stop : name ≠ "stop" → s'.stop = s.stop
  stopSequences : name ≠ "stop_sequences" → s'.stopSequences = s.stopSequences
  stream : name ≠ "stream" → s'.stream = s.stream
  user : name ≠ "user" → s'.user = s.user

/-- A step changes no slot but the one of its name. It is looked at name by name, here and nowhere
else. -/
theorem put_keepsOthers {s s' : Slots} {name : String} {r : Reading} (h : put s name r = .ok s') :
    KeepsOthers name s s' := by
  unfold put at h
  split at h
  all_goals
    obtain ⟨_, -, h⟩ := exists_of_bind_ok h
    rw [← Except.ok.inj h]
    constructor <;> simp

theorem fills_model : Fills put "model" text (·.model) :=
  .of_set (fun _ _ => rfl) (fun _ _ => rfl) fun hne h => (put_keepsOthers h).model hne

theorem fills_temperature : Fills put "temperature" (optional single) (·.temperature) :=
  .of_set (fun _ _ => rfl) (fun _ _ => rfl) fun hne h => (put_keepsOthers h).temperature hne

theorem fills_maxTokens : Fills put "max_tokens" (optional word) (·.maxTokens) :=
  .of_set (fun _ _ => rfl) (fun _ _ => rfl) fun hne h => (put_keepsOthers h).maxTokens hne

theorem fills_maxCompletionTokens :
    Fills put "max_completion_tokens" (optional word) (·.maxCompletionTokens) :=
  .of_set (fun _ _ => rfl) (fun _ _ => rfl) fun hne h => (put_keepsOthers h).maxCompletionTokens hne

theorem fills_topP : Fills put "top_p" (optional single) (·.topP) :=
  .of_set (fun _ _ => rfl) (fun _ _ => rfl) fun hne h => (put_keepsOthers h).topP hne

theorem fills_topK : Fills put "top_k" (optional word) (·.topK) :=
  .of_set (fun _ _ => rfl) (fun _ _ => rfl) fun hne h => (put_keepsOthers h).topK hne

theorem fills_frequencyPenalty :
    Fills put "frequency_penalty" (optional single) (·.frequencyPenalty) :=
  .of_set (fun _ _ => rfl) (fun _ _ => rfl) fun hne h => (put_keepsOthers h).frequencyPenalty hne

theorem fills_presencePenalty :
    Fills put "presence_penalty" (optional single) (·.presencePenalty) :=
  .of_set (fun _ _ => rfl) (fun _ _ => rfl) fun hne h => (put_keepsOthers h).presencePenalty hne

theorem fills_stop : Fills put "stop" (optional stopDecoder) (·.stop) :=
  .of_set (fun _ _ => rfl) (fun _ _ => rfl) fun hne h => (put_keepsOthers h).stop hne

theorem fills_stopSequences : Fills put "stop_sequences" (optional (list text)) (·.stopSequences) :=
  .of_set (fun _ _ => rfl) (fun _ _ => rfl) fun hne h => (put_keepsOthers h).stopSequences hne

theorem fills_stream : Fills put "stream" bool (·.stream) :=
  .of_set (fun _ _ => rfl) (fun _ _ => rfl) fun hne h => (put_keepsOthers h).stream hne

theorem fills_user : Fills put "user" (optional text) (·.user) :=
  .of_set (fun _ _ => rfl) (fun _ _ => rfl) fun hne h => (put_keepsOthers h).user hne

theorem exists_put {name : String} (hname : name ∉ fieldNames) (s : Slots) (j : Json) :
    ∃ s', put s name (.ofJson j) = .ok s' := by
  obtain ⟨value, hvalue⟩ := Reading.exists_toJson?_ofJson j
  unfold put
  split
  case h_15 =>
    rw [json, hvalue]
    exact ⟨_, rfl⟩
  all_goals exact absurd (by simp [fieldNames]) hname

variable {ms : List (String × Json)} {r : Request}

theorem heldIn_of_decoder_ok (hnodup : (ms.map Prod.fst).Nodup)
    (hsingle : Reading.noSingleMembers (Reading.ofMembers ms) = true)
    (h : Request.decoder (.ofJson (.object ms)) = .ok r) : HeldIn (ms.lookup ·) r := by
  obtain ⟨s, hobject, h⟩ := exists_of_bind_ok h
  obtain ⟨model, hmodel, h⟩ := exists_of_bind_ok h
  obtain ⟨messages, hmessages, h⟩ := exists_of_bind_ok h
  have hmembers : Decoder.members put {} (Reading.ofMembers ms) = .ok s := hobject
  rw [← Except.ok.inj h]
  -- Each slot was filled by its own name, so each field is looked up apart from the others.
  exact {
    model := fills_model.lookup hmembers rfl (need_ok hmodel)
    messages := fills_messages.lookup hmembers rfl (need_ok hmessages)
    system := fills_system.holds hmembers rfl
    temperature := fills_temperature.holds hmembers rfl
    maxTokens := fills_maxTokens.holds hmembers rfl
    maxCompletionTokens := fills_maxCompletionTokens.holds hmembers rfl
    topP := fills_topP.holds hmembers rfl
    topK := fills_topK.holds hmembers rfl
    frequencyPenalty := fills_frequencyPenalty.holds hmembers rfl
    presencePenalty := fills_presencePenalty.holds hmembers rfl
    stop := fills_stop.holds hmembers rfl
    stopSequences := fills_stopSequences.holds hmembers rfl
    stream := fills_stream.defaults hmembers rfl false
    user := fills_user.holds hmembers rfl
    sorted := gathers_extra.sorted hmembers List.Pairwise.nil
    extra := by
      intro name
      rw [gathers_extra.members hmembers hsingle hnodup name]
      split
      · rfl
      · exact Option.or_none }

/-- **What is found under each name settles which request is read.** -/
theorem decoder_iff (hnodup : (ms.map Prod.fst).Nodup)
    (hsingle : Reading.noSingleMembers (Reading.ofMembers ms) = true) :
    Request.decoder (.ofJson (.object ms)) = .ok r ↔ HeldIn (ms.lookup ·) r := by
  refine ⟨heldIn_of_decoder_ok hnodup hsingle, fun h => ?_⟩
  obtain ⟨s, hs⟩ : ∃ s, Decoder.members put {} (Reading.ofMembers ms) = .ok s := by
    refine exists_members_of_takes fieldNames (fun s name j hname => exists_put hname s j) hnodup ?_
    intro name hname j hj
    simp only [fieldNames, List.mem_cons, List.not_mem_nil, or_false] at hname
    rcases hname with
      rfl | rfl | rfl | rfl | rfl | rfl | rfl | rfl | rfl | rfl | rfl | rfl | rfl | rfl
    · exact fills_model.awaits_of_needs rfl h.model hj
    · exact fills_messages.awaits_of_needs rfl h.messages hj
    · exact fills_system.awaits_of_holds rfl h.system hj
    · exact fills_temperature.awaits_of_holds rfl h.temperature hj
    · exact fills_maxTokens.awaits_of_holds rfl h.maxTokens hj
    · exact fills_maxCompletionTokens.awaits_of_holds rfl h.maxCompletionTokens hj
    · exact fills_topP.awaits_of_holds rfl h.topP hj
    · exact fills_topK.awaits_of_holds rfl h.topK hj
    · exact fills_frequencyPenalty.awaits_of_holds rfl h.frequencyPenalty hj
    · exact fills_presencePenalty.awaits_of_holds rfl h.presencePenalty hj
    · exact fills_stop.awaits_of_holds rfl h.stop hj
    · exact fills_stopSequences.awaits_of_holds rfl h.stopSequences hj
    · exact fills_stream.awaits_of_defaults rfl h.stream hj
    · exact fills_user.awaits_of_holds rfl h.user hj
  obtain ⟨modelJson, hmodelJson, hmodel⟩ := h.model
  obtain ⟨messagesJson, hmessagesJson, hmessages⟩ := h.messages
  obtain ⟨read, hread⟩ : ∃ read, Request.decoder (.ofJson (.object ms)) = .ok read := by
    show ∃ read, (Decoder.members put {} (Reading.ofMembers ms) >>= ofSlots) = .ok read
    rw [hs]
    show ∃ read, (need "model" s.model >>= fun _ => need "messages" s.messages >>= _) = .ok read
    rw [fills_model.slot_eq hs hmodelJson hmodel, fills_messages.slot_eq hs hmessagesJson hmessages]
    exact ⟨_, rfl⟩
  rw [hread, (heldIn_of_decoder_ok hnodup hsingle hread).unique h]

end Request

end Chat

end ModelRelay
