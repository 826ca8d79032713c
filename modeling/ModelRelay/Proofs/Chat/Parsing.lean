import ModelRelay.Chat.Request
import ModelRelay.Proofs.Json.Records

/-!
# What an accepted request holds

A request is read from an object whose members come in any order. Once it is accepted, what it holds
is what can be looked up in that object: its turns under `messages`, each with its role and its
content, the instructions under `system`, and under `extra` every member that has no field.

The content of a turn that is an array depends on all of its items. They stay as they are if one of
them does not read as a part (`blocks_of_decoder_ok`); if all do, parts are what is left of them
(`parts_of_decoder_ok`).

This is what the translations need: they begin at a request that was read, and the claim is about
the body that it was read from. The fields that no translation treats by itself are left to
`Fields`, where the whole of a request is settled.
-/

set_option autoImplicit false

namespace ModelRelay.Chat

open Decoder

/-! ## Roles

A role is one of a few names. -/

theorem Role.name_of_lookup {name : String} {role : Role} (h : Role.names.lookup name = some role) :
    name = role.name := by
  simp only [Role.names, List.map_cons, List.map_nil, Json.lookup_cons_eq] at h
  split_ifs at h with h₁ h₂ h₃ h₄ h₅
  · rw [h₁, Option.some.inj h]
  · rw [h₂, Option.some.inj h]
  · rw [h₃, Option.some.inj h]
  · rw [h₄, Option.some.inj h]
  · rw [h₅, Option.some.inj h]
  · nomatch h

/-- A role is given by its name, or by an object that has the name for its only member. -/
theorem Role.decoder_ok {j : Json} {role : Role} (h : Role.decoder (.ofJson j) = .ok role) :
    j = .string role.name ∨ j = .object [(role.name, .null)] := by
  obtain ⟨name, hname, hj⟩ := oneOf_ok h
  rwa [Role.name_of_lookup hname] at hj

/-! ## Content

Content is tried as a text, then as parts, then as blocks. Which of the kinds it becomes is the
first that fits, so that an array becomes blocks only where some item is no part. -/

/-- What is read is what the first of the choices that can read it makes of it. -/
theorem firstFit_ok {α : Type} {choices : List (Decoder α)} {j : Json} {a : α}
    (h : firstFit choices (.ofJson j) = .ok a) :
    (choices.findSome? fun d => (d (.ofJson j)).toOption) = some a := by
  rw [firstFit, held, Reading.isNone_toJson?_ofJson, if_neg Bool.false_ne_true] at h
  have h := of_mapError_ok h
  cases hfit : choices.findSome? fun d => (d (.ofJson j)).toOption with
  | none =>
    rw [hfit] at h
    nomatch h
  | some b =>
    rw [hfit] at h
    rw [Except.ok.inj h]

/-- The item reads as a typed part. -/
def IsPart (item : Json) : Prop :=
  ∃ part, ContentPart.decoder true (.ofJson item) = .ok part

namespace Content

variable {items : List Json} {content : Content}

/-- Items that all read as parts are no more than these parts. -/
theorem parts_of_decoder_ok (hparts : ∀ item ∈ items, IsPart item)
    (h : Content.decoder (.ofJson (.array items)) = .ok content) :
    ∃ parts, content = .parts parts ∧
      List.Forall₂ (fun item part => ContentPart.decoder true (.ofJson item) = .ok part)
        items parts := by
  obtain ⟨parts, hall⟩ : ∃ parts, List.Forall₂
      (fun item part => ContentPart.decoder true (.ofJson item) = .ok part) items parts := by
    clear h
    induction items with
    | nil => exact ⟨[], .nil⟩
    | cons item rest ih =>
      obtain ⟨part, hpart⟩ := hparts item List.mem_cons_self
      obtain ⟨parts, hrest⟩ := ih fun item hitem => hparts item (List.mem_cons_of_mem _ hitem)
      exact ⟨part :: parts, .cons hpart hrest⟩
  have hlist : list (ContentPart.decoder true) (.ofJson (.array items)) = .ok parts := list_of hall
  have hfit := firstFit_ok h
  simp only [List.findSome?, hlist] at hfit
  exact ⟨parts, (Option.some.inj hfit).symm, hall⟩

/-- One item that is no part keeps all of them as they are. -/
theorem blocks_of_decoder_ok (hsingle : (Reading.ofJson (.array items)).noSingle = true)
    (hother : ∃ item ∈ items, ¬ IsPart item)
    (h : Content.decoder (.ofJson (.array items)) = .ok content) :
    content = .blocks (items.map Json.canonical) := by
  have hfit := firstFit_ok h
  cases hlist : list (ContentPart.decoder true) (.ofJson (.array items)) with
  | ok parts =>
    obtain ⟨item, hitem, hno⟩ := hother
    obtain ⟨_, hitems, hall⟩ := list_ok hlist
    rw [← Json.array.inj hitems] at hall
    obtain ⟨part, -, hpart⟩ := exists_of_forall₂_of_mem hall hitem
    exact absurd ⟨part, hpart⟩ hno
  | error m =>
    simp only [List.findSome?, hlist, list_json hsingle] at hfit
    exact (Option.some.inj hfit).symm

end Content

/-- Instructions in an array stay as they are: there are no parts of instructions. -/
theorem SystemPrompt.blocks_of_decoder_ok {items : List Json} {prompt : SystemPrompt}
    (hsingle : (Reading.ofJson (.array items)).noSingle = true)
    (h : SystemPrompt.decoder (.ofJson (.array items)) = .ok prompt) :
    prompt = .blocks (items.map Json.canonical) := by
  have hfit := firstFit_ok h
  simp only [List.findSome?, list_json hsingle] at hfit
  exact (Option.some.inj hfit).symm

/-! ## Turns

A turn has three fields, and keeps every other member. -/

namespace Message

theorem put_kept {s s' : Slots} {name : String} {r : Reading} (h : put s name r = .ok s') :
    (name ≠ "role" → s'.role = s.role) ∧ (name ≠ "content" → s'.content = s.content) := by
  unfold put at h
  split at h
  all_goals
    obtain ⟨_, -, h⟩ := exists_of_bind_ok h
    rw [← Except.ok.inj h]
    simp

theorem fills_role : Fills put "role" Role.decoder (·.role) :=
  .of_set (fun _ _ => rfl) (fun _ _ => rfl) fun hne h => (put_kept h).1 hne

theorem fills_content : Fills put "content" Content.decoder (·.content) :=
  .of_set (fun _ _ => rfl) (fun _ _ => rfl) fun hne h => (put_kept h).2 hne

/-- A turn has the role and the content that stand in its object. -/
theorem decoder_ok {j : Json} {m : Message} (hdecoded : Message.decoder (.ofJson j) = .ok m) :
    ∃ members, j = .object members ∧
      (∃ found, members.lookup "role" = some found ∧ Role.decoder (.ofJson found) = .ok m.role) ∧
      ∀ found, members.lookup "content" = some found →
        Content.decoder (.ofJson found) = .ok m.content := by
  obtain ⟨s, hobject, h⟩ := exists_of_bind_ok hdecoded
  obtain ⟨role, hrole, h⟩ := exists_of_bind_ok h
  cases j with
  | object members =>
    have hmembers : Decoder.members put {} (Reading.ofMembers members) = .ok s := hobject
    refine ⟨members, rfl, ?_, fun found hfound => ?_⟩
    · rw [← Except.ok.inj h]
      exact fills_role.lookup hmembers rfl (need_ok hrole)
    · rcases fills_content.members hmembers with ⟨hnone, -⟩ | ⟨-, j, content, hj, hd, hslot⟩
      · nomatch hnone.symm.trans hfound
      · rw [← Except.ok.inj h, ← Option.some.inj (hj.symm.trans hfound), hd]
        simp only [hslot, Option.getD_some]
  | null | bool _ | number n | string _ | array _ => nomatch hobject

end Message

/-! ## Requests

Two of the fourteen fields are looked at here. One case analysis over the names says that a step
leaves both alone unless the member has their name. -/

namespace Request

/-- The members of a request that have a field. -/
def fieldNames : List String :=
  ["model", "messages", "system", "temperature", "max_tokens", "max_completion_tokens", "top_p",
   "top_k", "frequency_penalty", "presence_penalty", "stop", "stop_sequences", "stream", "user"]

theorem put_kept {s s' : Slots} {name : String} {r : Reading} (h : put s name r = .ok s') :
    (name ≠ "messages" → s'.messages = s.messages) ∧ (name ≠ "system" → s'.system = s.system) := by
  unfold put at h
  split at h
  all_goals
    obtain ⟨_, -, h⟩ := exists_of_bind_ok h
    rw [← Except.ok.inj h]
    simp

theorem fills_messages : Fills put "messages" (list Message.decoder) (·.messages) :=
  .of_set (fun _ _ => rfl) (fun _ _ => rfl) fun hne h => (put_kept h).1 hne

theorem fills_system : Fills put "system" (optional SystemPrompt.decoder) (·.system) :=
  .of_set (fun _ _ => rfl) (fun _ _ => rfl) fun hne h => (put_kept h).2 hne

theorem gathers_extra : Gathers put fieldNames (·.extra) where
  kept hname h := by
    unfold put at h
    split at h
    case h_15 => simp_all [fieldNames]
    all_goals
      obtain ⟨_, -, h⟩ := exists_of_bind_ok h
      rw [← Except.ok.inj h]
  gathered hname h := by
    unfold put at h
    split at h
    case h_15 =>
      obtain ⟨value, hvalue, h⟩ := exists_of_bind_ok h
      rw [← Except.ok.inj h]
      exact ⟨value, hvalue, rfl⟩
    all_goals exact absurd (by simp [fieldNames]) hname

/-- A request has the turns and the instructions that stand in its object, and all members that
have no field. -/
theorem decoder_ok {j : Json} {r : Request} (hsingle : (Reading.ofJson j).noSingle = true)
    (hdecoded : Request.decoder (.ofJson j) = .ok r) :
    ∃ members, j = .object members ∧
      (∃ turns, members.lookup "messages" = some (.array turns) ∧
        List.Forall₂ (fun turn m => Message.decoder (.ofJson turn) = .ok m) turns r.messages) ∧
      SystemPrompt.decoder.Holds (members.lookup "system") r.system ∧
      Json.Sorted r.extra ∧
      ((members.map Prod.fst).Nodup → ∀ name, r.extra.lookup name
        = if name ∈ fieldNames then none else (members.lookup name).map Json.canonical) := by
  obtain ⟨s, hobject, h⟩ := exists_of_bind_ok hdecoded
  obtain ⟨model, -, h⟩ := exists_of_bind_ok h
  obtain ⟨messages, hmessages, h⟩ := exists_of_bind_ok h
  cases j with
  | object members =>
    have hmembers : Decoder.members put {} (Reading.ofMembers members) = .ok s := hobject
    obtain ⟨found, hfound, hlist⟩ := fills_messages.lookup hmembers rfl (need_ok hmessages)
    obtain ⟨turns, rfl, hturns⟩ := list_ok hlist
    rw [← Except.ok.inj h]
    refine ⟨members, rfl, ⟨turns, hfound, hturns⟩, fills_system.holds hmembers rfl,
      gathers_extra.sorted hmembers List.Pairwise.nil, fun hnodup name => ?_⟩
    rw [gathers_extra.members hmembers hsingle hnodup name]
    split
    · rfl
    · exact Option.or_none
  | null | bool _ | number n | string _ | array _ => nomatch hobject

end Request

end ModelRelay.Chat
