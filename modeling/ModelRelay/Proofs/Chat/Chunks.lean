import ModelRelay.Proofs.Json.Rereading
import ModelRelay.Proofs.Json.Written
import ModelRelay.Sse.Frame

/-!
# Chunks on the wire

The pieces of an answer that is streamed are sent as the text of chunks. **A chunk is read back from
its text** (`Chunk.ofText_print`), whatever characters are in it, for it survives its text part by
part, and each part is decoded from the value that is written of it. Callers know that a stream is
over by a line that is no JSON, and neither a chunk nor a failure is ever taken for it
(`Frame.encode_ofChunk_ne_done`, `Frame.encode_ofError_ne_done`).

For each part there are two lemmas: that it survives its text, and that its decoder takes it back.
No chunk has a fraction in it, which is why nothing is asked of its numbers; only the time of its
making must be a number of 64 bits, as it is in every chunk that the relay can hold.
-/

set_option autoImplicit false

namespace ModelRelay

open Decoder Json

namespace Json

/-! ## Whole numbers with a sign -/

/-- A whole number of 64 bits with its sign. -/
def IsInt64 (n : ℤ) : Prop :=
  -0x8000000000000000 ≤ n ∧ n < 0x8000000000000000

variable {n : ℤ}

/-- A whole number with a sign survives, for it is printed digit by digit. -/
theorem survives_ofInt (h : IsInt64 n) {room : ℕ} : (ofInt n).Survives room := by
  obtain ⟨hlow, hhigh⟩ := h
  cases n with
  | ofNat n =>
    rw [Int.ofNat_eq_natCast] at hhigh
    exact survives_ofNat (n := n) (by omega)
  | negSucc n =>
    have hfits : 0 < n + 1 ∧ n + 1 ≤ 0x8000000000000000 := by omega
    exact ⟨hfits, Number.reread_eq (WrittenAs.negative hfits.1 hfits.2)⟩

theorem int64_ofInt (h : IsInt64 n) : int64 (.ofJson (ofInt n)) = .ok n := by
  obtain ⟨-, hhigh⟩ := h
  cases n with
  | ofNat n =>
    rw [Int.ofNat_eq_natCast] at hhigh
    show (if n < 0x8000000000000000 then _ else _) = _
    rw [if_pos (by omega)]
    rfl
  | negSucc n => rfl

theorem survives_word (n : UInt32) {room : ℕ} : (ofNat n.toNat).Survives room :=
  survives_ofNat (lt_trans n.toNat_lt (by decide))

theorem word_ofNat (n : UInt32) : word (.ofJson (ofNat n.toNat)) = .ok n :=
  (isWord_isReadBy rfl).2

end Json

namespace Chat

/-! ## The parts of a chunk

Usage, deltas, finish reasons and choices. How deep each is nested is a part of what is said of it.
-/

theorem Usage.survives_toJson (u : Usage) (room : ℕ) : u.toJson.Survives (room + 1) := by
  apply survives_object
  simp only [List.forall_mem_cons]
  exact ⟨survives_word _, survives_word _, survives_word _, List.forall_mem_nil _⟩

theorem Usage.decoder_toJson (u : Usage) : Usage.decoder (.ofJson u.toJson) = .ok u := by
  have hword := word_ofNat
  simp only [Reading.ofJson, ofNat] at hword
  simp only [toJson, Reading.ofJson, Reading.ofMembers, ofNat, decoder, record, members, put, fill,
    Option.isSome_none, Bool.false_eq_true, if_false, hword]
  rfl

theorem Delta.survives_toJson (d : Delta) (room : ℕ) : d.toJson.Survives (room + 1) := by
  have hrole : ∀ j ∈ d.role.map fun role => Json.string role.name, j.Survives room :=
    survives_map (fun role => survives_string role.name) d.role
  have hcontent : ∀ j ∈ d.content.map Json.string, j.Survives room :=
    survives_map survives_string d.content
  apply survives_ofMembers
  simp only [List.forall_mem_cons]
  exact ⟨hrole, hcontent, List.forall_mem_nil _⟩

theorem Delta.decoder_toJson (d : Delta) : Delta.decoder (.ofJson d.toJson) = .ok d := by
  obtain ⟨role, content⟩ := d
  cases content <;> rcases role with _ | _ | _ | _ | _ | _ <;> rfl

theorem FinishReason.survives_toJson (finish : Option FinishReason) (room : ℕ) :
    (toJson finish).Survives room := by
  cases finish with
  | none => exact survives_null
  | some f => exact survives_string _

theorem FinishReason.decoder_toJson (finish : Option FinishReason) :
    optional FinishReason.decoder (.ofJson (toJson finish)) = .ok finish := by
  rcases finish with _ | _ | _ | _ | _ <;> rfl

theorem ChunkChoice.survives_toJson (c : ChunkChoice) (room : ℕ) :
    c.toJson.Survives (room + 2) := by
  apply survives_object
  simp only [List.forall_mem_cons]
  exact ⟨survives_word _, c.delta.survives_toJson _, FinishReason.survives_toJson _ _,
    List.forall_mem_nil _⟩

theorem ChunkChoice.decoder_toJson (c : ChunkChoice) :
    ChunkChoice.decoder (.ofJson c.toJson) = .ok c := by
  have hindex := word_ofNat c.index
  have hdelta := c.delta.decoder_toJson
  have hfinish := FinishReason.decoder_toJson c.finishReason
  simp only [toJson, Reading.ofJson, Reading.ofMembers, decoder, record, members, put, fill,
    Option.isSome_none, Bool.false_eq_true, if_false, hindex, hdelta, hfinish]
  rfl

theorem ChunkChoice.list_toJson (choices : List ChunkChoice) :
    list ChunkChoice.decoder (.ofJson (.array (choices.map toJson))) = .ok choices := by
  refine list_of (List.forall₂_map_left_iff.mpr ?_)
  exact List.forall₂_same.mpr fun choice _ => choice.decoder_toJson

/-! ## Chunks

A chunk is an object of these parts. It is nested four deep, which any reader has room for. -/

namespace Chunk

variable {c : Chunk}

theorem survives_toJson (h : IsInt64 c.created) (room : ℕ) : c.toJson.Survives (room + 4) := by
  have hchoices : (array (c.choices.map ChunkChoice.toJson)).Survives (room + 3) := by
    apply survives_array
    intro item hitem
    obtain ⟨choice, -, rfl⟩ := List.mem_map.mp hitem
    exact choice.survives_toJson room
  have husage : ∀ j ∈ c.usage.map Usage.toJson, j.Survives (room + 3) :=
    survives_map (fun usage => usage.survives_toJson (room + 2)) c.usage
  apply survives_ofMembers
  simp only [List.forall_mem_cons, Option.mem_some_iff, forall_eq']
  exact ⟨survives_string _, survives_string _, survives_ofInt h, survives_string _, hchoices,
    husage, List.forall_mem_nil _⟩

theorem decoder_toJson (h : IsInt64 c.created) : decoder (.ofJson c.toJson) = .ok c := by
  obtain ⟨id, object, created, model, choices, usage⟩ := c
  have hcreated : int64 (.ofJson (ofInt created)) = .ok created := int64_ofInt h
  have hchoices := ChunkChoice.list_toJson choices
  have husage : ∀ u : Usage, optional Usage.decoder (.ofJson u.toJson) = .ok (some u) := by
    intro u
    exact congrArg (Except.map some) u.decoder_toJson
  rw [Reading.ofJson] at hchoices
  -- The last member is there only if there is a usage to report.
  cases usage
  all_goals
    simp only [toJson, ofMembers, List.filterMap_cons, List.filterMap_nil, Option.map_some,
      Option.map_none, Reading.ofJson, Reading.ofMembers, decoder, record, members, put, fill,
      Option.isSome_none, Bool.false_eq_true, if_false, hcreated, hchoices, husage]
    rfl

/-- **A chunk is read back from its text.** -/
theorem ofText_print (h : IsInt64 c.created) : decoder.ofText c.toJson.print = .ok c :=
  ((survives_toJson h (Draft.depth - 4)).ofText_print decoder).trans (decoder_toJson h)

end Chunk

end Chat

/-! ## The end of a stream

The end is told by a line whose data is no JSON at all. -/

/-- The text of an object begins with a brace, that of the end signal with a bracket. -/
theorem Json.print_object_ne_done (members : List (String × Json)) :
    (Json.object members).print ≠ "[DONE]" := by
  intro h
  have hlist := congrArg String.toList h
  rw [print, String.toList_append, String.toList_append] at hlist
  exact absurd (List.cons.inj hlist).1 (by decide)

namespace Sse.Frame

/-- Data of one line that is not the end signal is not sent as the signal. -/
theorem encode_data_ne_done {payload : String} (h : payload ≠ "[DONE]") :
    (data payload).encode ≠ done.encode := by
  intro hsame
  have hlist : "data: ".toList ++ payload.toList ++ "\n\n".toList
      = "data: ".toList ++ "[DONE]".toList ++ "\n\n".toList := by
    rw [← String.toList_append, ← String.toList_append]
    exact congrArg String.toList hsame
  exact h (String.toList_inj.mp (List.append_cancel_left (List.append_cancel_right hlist)))

/-- **A chunk is never taken for the end.** -/
theorem encode_ofChunk_ne_done (c : Chat.Chunk) : (ofChunk c).encode ≠ done.encode :=
  encode_data_ne_done (Json.print_object_ne_done _)

/-- **A failure is never taken for the end.** -/
theorem encode_ofError_ne_done (e : RelayError) : (ofError false e).encode ≠ done.encode :=
  encode_data_ne_done (Json.print_object_ne_done _)

end Sse.Frame

end ModelRelay
