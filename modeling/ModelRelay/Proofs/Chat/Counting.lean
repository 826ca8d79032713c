import ModelRelay.Http.Server
import ModelRelay.Proofs.Chat.Prices
import ModelRelay.Proofs.Chat.RoundTrip
import ModelRelay.Proofs.Json.Weighing

/-!
# Prompts are counted without loss

A request weighs no more than its body is long, whatever members the body has and whichever way its
turns were read (`Request.weight_le`). Every part of it costs at most 22 for each unit of its weight
(`Price.ofPrompt_le`). An image comes closest: it costs 85, and its part weighs 4. So **the prompt
of a body that is not too large has a fair price**, and its tokens are the exact number
(`Tokens.ofPrompt_counts`).

The weight of a request counts its texts and the size of its blocks and leaves out everything that
is not part of the prompt. It stands between the body and the price because each of the two can be
compared with it part by part: the body is read by decoders, which never make more of a text than
there is in it, and the price is a sum over the same parts.

A block that is neither text nor an image is charged for its JSON text, which may be much longer
than what was sent, as numbers are printed in full. That text is bounded by the size of the block
too.
-/

set_option autoImplicit false

namespace ModelRelay.Chat

open Decoder

/-! ## What is read weighs no more than what it was read from

Each decoder of a request has its weight. For a record it is what its slots hold. -/

theorem weighs_firstFit {α : Type} {choices : List (Decoder α)} {w : α → ℕ}
    (h : ∀ d ∈ choices, Weighs d w) : Weighs (firstFit choices) w := by
  refine Weighs.held fun r a hread => ?_
  cases hfit : choices.findSome? fun d => (d r).toOption with
  | none =>
    rw [hfit] at hread
    nomatch hread
  | some found =>
    rw [hfit] at hread
    obtain ⟨d, hd, hfound⟩ := List.exists_of_findSome?_eq_some hfit
    rw [← Except.ok.inj hread]
    exact h d hd (ok_of_toOption hfound)

/-- A link weighs at least its object and its address. -/
theorem ImageUrl.weighs_decoder : Weighs ImageUrl.decoder fun _ => 2 := by
  intro r image h
  obtain ⟨s, hrecord, h⟩ := exists_of_bind_ok h
  obtain ⟨url, hurl, -⟩ := exists_of_bind_ok h
  have hweight := (fills_url.stepWeighs weighs_text).record hrecord
  simp only [need_ok hurl, Option.elim_some, Option.elim_none] at hweight
  show 2 ≤ r.size
  omega

namespace ContentPart

/-- What a part weighs besides its tag. -/
def weight : ContentPart → ℕ
  | .text s => 2 + s.length
  | .image _ => 3

theorem weighs_body (tag : String) : Weighs (body tag) weight := by
  intro r p h
  unfold body at h
  split at h
  · obtain ⟨slot, hrecord, h⟩ := exists_of_bind_ok h
    obtain ⟨s, hs, h⟩ := exists_of_bind_ok h
    have hweight := ((fills_single putText_eq).stepWeighs weighs_text).record hrecord
    simp only [need_ok hs, id, Option.elim_some, Option.elim_none] at hweight
    rw [← Except.ok.inj h, weight]
    omega
  · obtain ⟨slot, hrecord, h⟩ := exists_of_bind_ok h
    obtain ⟨image, himage, h⟩ := exists_of_bind_ok h
    have hweight := ((fills_single putImage_eq).stepWeighs ImageUrl.weighs_decoder).record hrecord
    simp only [need_ok himage, id, Option.elim_some, Option.elim_none] at hweight
    rw [← Except.ok.inj h, weight]
    omega

theorem weighs_decoder (byPlace : Bool) : Weighs (decoder byPlace) fun p => 1 + p.weight :=
  .tagged weighs_body

end ContentPart

namespace Content

def weight : Content → ℕ
  | .text s => 1 + s.length
  | .parts ps => 1 + (ps.map fun p => 1 + p.weight).sum
  | .blocks bs => 1 + (bs.map Json.size).sum
  | .null => 0

theorem weighs_decoder : Weighs decoder weight := by
  refine weighs_firstFit fun d hd => ?_
  simp only [List.mem_cons, List.not_mem_nil, or_false] at hd
  obtain rfl | rfl | rfl | rfl := hd
  · exact Weighs.map weighs_text
  · exact Weighs.map (ContentPart.weighs_decoder true).list
  · exact Weighs.map weighs_json.list
  · intro r content h
    rw [decodeNull.eq_def] at h
    split at h
    · rw [← Except.ok.inj h]
      exact Nat.zero_le _
    · exact absurd h refuse_ne_ok

end Content

namespace SystemPrompt

def weight : SystemPrompt → ℕ
  | .text s => 1 + s.length
  | .blocks bs => 1 + (bs.map Json.size).sum

theorem weighs_decoder : Weighs decoder weight := by
  refine weighs_firstFit fun d hd => ?_
  simp only [List.mem_cons, List.not_mem_nil, or_false] at hd
  obtain rfl | rfl := hd
  · exact Weighs.map weighs_text
  · exact Weighs.map weighs_json.list

end SystemPrompt

namespace Message

def weight (m : Message) : ℕ :=
  1 + m.content.weight

theorem weighs_decoder : Weighs decoder weight := by
  intro r m h
  obtain ⟨s, hobject, h⟩ := exists_of_bind_ok h
  obtain ⟨role, -, h⟩ := exists_of_bind_ok h
  have hweight := (fills_content.stepWeighs Content.weighs_decoder).object hobject
  have hcontent : (s.content.getD .null).weight = s.content.elim 0 Content.weight := by
    cases s.content <;> rfl
  rw [← Except.ok.inj h, weight, hcontent]
  exact hweight.trans (Nat.zero_add _).le

end Message

namespace Request

def weight (r : Request) : ℕ :=
  1 + ((r.messages.map Message.weight).sum + r.system.elim 0 SystemPrompt.weight)

theorem weighs_decoder : Weighs decoder weight := by
  intro r request h
  obtain ⟨s, hobject, h⟩ := exists_of_bind_ok h
  obtain ⟨model, -, h⟩ := exists_of_bind_ok h
  obtain ⟨messages, hmessages, h⟩ := exists_of_bind_ok h
  have hweight := (fills_messages.stepWeighs_add Message.weighs_decoder.list fills_system
    SystemPrompt.weighs_decoder.optional (by decide)).object hobject
  have hsystem : s.system.join.elim 0 SystemPrompt.weight
      = s.system.elim 0 fun prompt => prompt.elim 0 SystemPrompt.weight := by
    cases s.system <;> rfl
  simp only [need_ok hmessages, ← hsystem, Option.elim_some, Option.elim_none] at hweight
  rw [← Except.ok.inj h, weight]
  dsimp only
  omega

/-- **A request weighs no more than its body is long.** -/
theorem weight_le {body : List UInt8} {r : Request} (h : Request.ofBytes body = .ok r) :
    r.weight ≤ body.length := by
  obtain ⟨request, hread, h⟩ := exists_of_bind_ok (of_mapError_ok h)
  split at h
  · next hends =>
    rw [← Except.ok.inj h]
    exact (weighs_decoder hread).trans (Draft.size_root_le hends)
  · cases h

end Request

/-! ## What is weighed has a price

22 is enough for each unit: an image costs 85 and its part weighs 4, and a block costs a fourth of
its text. -/

/-- A string that is found in a block is shorter than the block is large. -/
theorem length_lt_of_get? {block : Json} {name s : String}
    (h : (block.get? name).bind Json.string? = some s) :
    name.length + s.length + 2 < block.size := by
  obtain ⟨value, hvalue, hs⟩ := Option.bind_eq_some_iff.mp h
  cases block with
  | object members =>
    have hsize := Json.size_le_of_lookup hvalue
    cases value with
    | string held =>
      rw [← Option.some.inj hs]
      rw [Json.size] at hsize
      omega
    | null | bool _ | number n | array _ | object _ => nomatch hs
  | null | bool _ | number n | string _ | array _ => nomatch hvalue

/-- The texts of some blocks, joined by line breaks, are no longer than the blocks are large. -/
theorem length_joinLines_blockTexts_le (blocks : List Json) :
    (joinLines (blockTexts blocks)).length ≤ (blocks.map Json.size).sum := by
  refine (Json.length_intercalate_le rfl _).trans ?_
  induction blocks with
  | nil => exact le_rfl
  | cons block rest ih =>
    rw [blockTexts, List.filterMap_cons, List.map_cons, List.sum_cons]
    split
    · exact ih.trans (Nat.le_add_left _ _)
    · next s hs =>
      rw [blockText?] at hs
      split at hs
      · have hlength := length_lt_of_get? hs
        rw [List.map_cons, List.sum_cons]
        rw [blockTexts] at ih
        omega
      · nomatch hs

namespace Price

theorem ofPart_le (p : ContentPart) : ofPart p ≤ 22 * (1 + p.weight) := by
  cases p with
  | text s =>
    rw [ofPart, ofText, ContentPart.weight]
    omega
  | image i => exact (by decide : 85 ≤ 22 * (1 + 3))

/-- The name of a block of an image alone weighs enough for its price. -/
theorem ofBlock_le {block : Json} {room : ℕ} (h : block.Fits room) :
    ofBlock block ≤ 22 * block.size := by
  unfold ofBlock chargeBlock
  split
  · cases htext : (block.get? "text").bind Json.string? with
    | none => exact Nat.zero_le _
    | some s =>
      have hlength := length_lt_of_get? htext
      show (s.length + 3) / 4 ≤ _
      omega
  · next himage =>
    have hlength := length_lt_of_get? himage
    rw [show "type".length = 4 from rfl, show "image".length = 5 from rfl] at hlength
    omega
  · next hurl =>
    have hlength := length_lt_of_get? hurl
    rw [show "type".length = 4 from rfl, show "image_url".length = 9 from rfl] at hlength
    omega
  · have hprint := Json.length_print_lt h
    rw [ofText]
    omega

theorem sum_le {α : Type} {price w : α → ℕ} {xs : List α} (h : ∀ x ∈ xs, price x ≤ 22 * w x) :
    (xs.map price).sum ≤ 22 * (xs.map w).sum := by
  rw [← List.sum_map_mul_left]
  exact List.sum_le_sum h

theorem ofContent_le {content : Content} {room : ℕ} (h : content.toJson.Fits room) :
    ofContent content ≤ 22 * content.weight := by
  cases content with
  | text s =>
    rw [ofContent, ofText, Content.weight]
    omega
  | parts ps =>
    have hsum : (ps.map ofPart).sum ≤ 22 * (ps.map fun p => 1 + p.weight).sum :=
      sum_le fun p _ => ofPart_le p
    rw [ofContent, Content.weight]
    omega
  | blocks bs =>
    have hsum : (bs.map ofBlock).sum ≤ 22 * (bs.map Json.size).sum :=
      sum_le fun b hb => ofBlock_le (Json.fits_of_mem h hb)
    rw [ofContent, Content.weight]
    omega
  | null => exact le_rfl

theorem ofMessage_le {m : Message} {room : ℕ} (h : m.content.toJson.Fits room) :
    ofMessage m ≤ 22 * m.weight := by
  have hcontent := ofContent_le h
  rw [ofMessage, Message.weight]
  omega

theorem ofSystem_le (system : Option SystemPrompt) :
    ofSystem system ≤ 22 * system.elim 0 SystemPrompt.weight := by
  cases system with
  | none => exact le_rfl
  | some prompt =>
    show 3 + (prompt.joinedText.length + 3) / 4 ≤ 22 * prompt.weight
    cases prompt with
    | text s =>
      rw [SystemPrompt.joinedText, SystemPrompt.weight]
      omega
    | blocks bs =>
      have hlength := length_joinLines_blockTexts_le bs
      rw [SystemPrompt.joinedText, SystemPrompt.weight]
      omega

/-- **A prompt costs at most 22 for each byte of the body that it came in.** -/
theorem ofPrompt_le {body : List UInt8} {r : Request} (h : Request.ofBytes body = .ok r) :
    ofPrompt r ≤ 22 * body.length := by
  obtain ⟨j, hj, hdecoded⟩ := Request.exists_spelledBy h
  have hwritable : r.IsWritable (Draft.depth - 1) :=
    Request.isWritable_of_decoder_ok hj.noSingle hj.fits (by decide) hdecoded
  have hmessages : (r.messages.map ofMessage).sum ≤ 22 * (r.messages.map Message.weight).sum :=
    sum_le fun m hm => ofMessage_le (hwritable.messages m hm).content
  have hsystem := ofSystem_le r.system
  have hweight := Request.weight_le h
  rw [Request.weight] at hweight
  rw [ofPrompt]
  omega

end Price

namespace Tokens

/-- **The tokens of a prompt are counted without loss.** In a body that is not too large no number
of characters and no sum on the way is more than a word, and the count is the exact price.

What is counted is in the body: every text that has a price is a string of the body, in one place,
and what stands for a block is no longer than the block. So the price is bounded by the size of the
body, and this is far below a word. -/
theorem ofPrompt_counts {body : List UInt8} {r : Request} (hsize : body.length ≤ Http.maxBodySize)
    (h : Request.ofBytes body = .ok r) :
    Counts (ofPrompt? r) (ofPrompt r) (Price.ofPrompt r) := by
  refine counts_prompt ((Price.ofPrompt_le h).trans_lt ?_)
  calc 22 * body.length ≤ 22 * Http.maxBodySize := Nat.mul_le_mul_left 22 hsize
    _ < fairPrice := by decide

/-- Instructions in blocks, a turn of a text and an image, one with a block that is no part, and one
without content. -/
theorem ofPrompt_counts_mixed :
    let body :=
      ("\x7b\"model\":\"m\",\"system\":[\x7b\"type\":\"text\",\"text\":\"Be brief\"\x7d]," ++
        "\"messages\":[\x7b\"role\":\"user\",\"content\":[\x7b\"type\":\"text\"," ++
        "\"text\":\"What?\"\x7d,\x7b\"type\":\"image_url\"," ++
        "\"image_url\":\x7b\"url\":\"u\"\x7d\x7d]\x7d," ++
        "\x7b\"role\":\"user\",\"content\":[\x7b\"type\":\"audio\",\"n\":1e2\x7d]\x7d," ++
        "\x7b\"role\":\"assistant\"\x7d]\x7d").toUTF8.data.toList
    ∃ r, Request.ofBytes body = .ok r ∧ body.length ≤ Http.maxBodySize ∧
      ofPrompt? r = some 111 ∧ ofPrompt r = 111 ∧ Price.ofPrompt r = 111 := by
  intro body
  have hsize : body.length ≤ Http.maxBodySize := by decide +kernel
  have hprice : (Request.ofBytes body).toOption.map Price.ofPrompt = some 111 := by decide +kernel
  cases hread : Request.ofBytes body with
  | error e =>
    rw [hread] at hprice
    nomatch hprice
  | ok r =>
    rw [hread] at hprice
    -- 3, and 5 for the instructions; 3, 2 and 85 for the text and the image; 3 and 7 for the other
    -- block; 3 for the last turn.
    have hexact : Price.ofPrompt r = 111 := Option.some.inj hprice
    obtain ⟨hwatched, hword⟩ := ofPrompt_counts hsize hread
    have hcount : ofPrompt r = 111 := UInt32.toNat_inj.mp (hword.trans hexact)
    exact ⟨r, rfl, hsize, hcount ▸ hwatched, hcount, hexact⟩

end Tokens

end ModelRelay.Chat
