import ModelRelay.Proofs.Chat.Writing
import ModelRelay.Proofs.Claude.Verbatim

/-!
# Converted requests can be written

A request that can be written can still be written once it is converted (`fits_ofChat`). A body is
writable if no number in it is out of range and if it is not nested too deeply for a reader.

It is nested no deeper than before: what is made anew, a block of text or an image, is flat, and
whatever else a turn says stood at the same place in some message. This goes by what is said, for
which joining turns makes no difference (`exists_of_mem_joinTurns`), so the proof never looks at how
turns are joined.

One level is added by the request itself, hence `room + 1`. The five levels that are asked for are
those of an image in the content of a turn.
-/

set_option autoImplicit false

namespace ModelRelay.Claude

open Json

variable {room : ℕ}

/-! ## Turns

From the inside out: a block, the content of a turn, a turn. The room shrinks by one at each step.
-/

theorem Block.fits_toJson (b : Block) (hroom : 2 ≤ room) : b.toJson.Fits room := by
  cases b with
  | text s => exact ⟨by omega, trivial, trivial, trivial⟩
  | image source =>
    cases source with
    | base64 mediaType data =>
      exact ⟨by omega, trivial, ⟨by omega, trivial, trivial, trivial, trivial⟩, trivial⟩
    | url link => exact ⟨by omega, trivial, ⟨by omega, trivial, trivial, trivial⟩, trivial⟩

namespace Content

/-- Content fits where each block of it fits one level deeper. -/
theorem fits_toJson {c : Content} (h : ∀ value ∈ c.toValues, value.Fits (room - 1))
    (hroom : 3 ≤ room) : c.toJson.Fits room := by
  cases c with
  | text s => trivial
  | blocks bs =>
    refine ⟨by omega, allFit_iff.mpr fun item hitem => ?_⟩
    obtain ⟨b, -, rfl⟩ := List.mem_map.mp hitem
    exact b.fits_toJson (by omega)
  | raw values => exact ⟨by omega, allFit_iff.mpr h⟩

/-- What is said fits where the content it comes from did. -/
theorem fits_of_ofChat? {content : Chat.Content} {links : Bool} {c : Content}
    (hc : ofChat? links content = some c) (h : content.toJson.Fits room) (hroom : 3 ≤ room) :
    ∀ value ∈ c.toValues, value.Fits (room - 1) := by
  -- Blocks are made anew, except those that are kept as they came.
  have hblocks : ∀ bs : List Block, ∀ value ∈ (blocks bs).toValues, value.Fits (room - 1) := by
    intro bs value hvalue
    obtain ⟨b, -, rfl⟩ := List.mem_map.mp hvalue
    exact (b.fits_toJson (by omega)).canonical
  cases content with
  | text s =>
    obtain rfl := Option.some.inj hc
    rw [ofText]
    split
    · exact hblocks _
    · exact hblocks [.text s]
  | parts ps =>
    obtain rfl := Option.some.inj hc
    exact hblocks _
  | blocks values =>
    obtain rfl := Option.some.inj hc
    exact fun value hvalue => fits_of_mem h hvalue
  | null => exact absurd hc (by simp [ofChat?])

end Content

/-- Joining turns puts nothing into them that none of them said. -/
theorem exists_of_mem_joinTurns {turns : List Turn} {t : Turn} (ht : t ∈ joinTurns turns)
    {value : Json} (hvalue : value ∈ t.content.toValues) :
    ∃ u ∈ turns, value ∈ u.content.toValues := by
  have hsaid : (t.role, value) ∈ (joinTurns turns).flatMap Turn.said :=
    List.mem_flatMap.mpr ⟨t, ht, List.mem_map_of_mem hvalue⟩
  rw [said_joinTurns] at hsaid
  obtain ⟨u, hu, hmem⟩ := List.mem_flatMap.mp hsaid
  obtain ⟨said, hsaid, heq⟩ := List.mem_map.mp hmem
  exact ⟨u, hu, (Prod.mk.inj heq).2 ▸ hsaid⟩

theorem fits_turn {r : Chat.Request} (h : r.IsWritable room) (hroom : 5 ≤ room) {vision : Bool}
    {t : Turn} (ht : t ∈ joinTurns (r.messages.filterMap (Turn.ofMessage? vision))) :
    t.toJson.Fits (room - 1) := by
  have hcontent : t.content.toJson.Fits (room - 2) := by
    refine Content.fits_toJson (fun value hvalue => ?_) (by omega)
    obtain ⟨u, hu, hvalue⟩ := exists_of_mem_joinTurns ht hvalue
    obtain ⟨m, hm, hturn⟩ := List.mem_filterMap.mp hu
    rw [ofMessage?_eq] at hturn
    obtain ⟨role, -, hturn⟩ := Option.bind_eq_some_iff.mp hturn
    obtain ⟨c, hc, rfl⟩ := Option.map_eq_some_iff.mp hturn
    exact Content.fits_of_ofChat? hc (h.messages m hm).content (by omega) value hvalue
  exact ⟨by omega, trivial, hcontent, trivial⟩

/-- What is at the top fits: it is one text, or blocks that were at the top before. -/
theorem fits_systemOf {native : Bool} {r : Chat.Request} (h : r.IsWritable room)
    {prompt : Chat.SystemPrompt} (hprompt : systemOf native r = some prompt) :
    prompt.toJson.Fits room := by
  cases prompt with
  | text s => trivial
  | blocks blocks =>
    -- No blocks are made here.
    have htexts : joinedInstructions r ≠ some (.blocks blocks) := by
      rw [joinedInstructions]
      split <;> simp
    rw [systemOf.eq_def] at hprompt
    split at hprompt
    · rename_i hsystem
      split at hprompt
      · exact (h.system _ (hsystem.trans hprompt)).1
      · exact absurd hprompt htexts
    · exact absurd hprompt htexts

/-! ## The request as a whole -/

/-- What is kept without a field has no name of a field here either. -/
theorem extraIsApart_of_isWritable {r : Chat.Request} (h : r.IsWritable room) (vision : Bool)
    (protocol : Protocol) : (Request.ofChat r vision protocol).ExtraIsApart := by
  cases protocol with
  | completions => exact ⟨List.Pairwise.nil, fun _ _ => rfl⟩
  | messages =>
    refine ⟨h.extra.sorted, fun name hname => lookup_eq_none fun hmem => ?_⟩
    have hall : ∀ name ∈ Request.fieldNames, name ∈ Chat.Request.fieldNames := by decide
    obtain ⟨e, he, rfl⟩ := List.mem_map.mp hmem
    exact h.extra.apart e he (hall e.1 hname)

/-- **A request that can be written can be once it is converted.** -/
theorem fits_ofChat {r : Chat.Request} (h : r.IsWritable room) (hroom : 5 ≤ room) (vision : Bool)
    (protocol : Protocol) : (Request.ofChat r vision protocol).toJson.Fits (room + 1) := by
  have hword : ∀ n : UInt32, (ofNat n.toNat).Fits room := fun n =>
    fits_ofNat (lt_trans n.toNat_lt (by decide)) room
  have hturns :
      (Json.array ((Request.ofChat r vision protocol).turns.map Turn.toJson)).Fits room := by
    refine ⟨by omega, allFit_iff.mpr fun item hitem => ?_⟩
    obtain ⟨t, ht, rfl⟩ := List.mem_map.mp hitem
    exact fits_turn h hroom ht
  have hextra : ∀ e ∈ (Request.ofChat r vision protocol).extra, e.2.Fits room := by
    cases protocol with
    | completions => exact fun e he => absurd he List.not_mem_nil
    | messages => exact h.extra.fits
  rw [Request.toJson_eq]
  refine fits_ofMembers fun name value hvalue => ?_
  rcases List.mem_append.mp hvalue with hfield | hbehind
  · simp only [Request.fieldMembers, List.mem_cons, Prod.mk.injEq, List.not_mem_nil, or_false]
      at hfield
    -- The nine fields in their order; only the turns and the instructions are nested.
    rcases hfield with ⟨-, hv⟩ | ⟨-, hv⟩ | ⟨-, hv⟩ | ⟨-, hv⟩ | ⟨-, hv⟩ | ⟨-, hv⟩ | ⟨-, hv⟩ |
      ⟨-, hv⟩ | ⟨-, hv⟩
    · obtain rfl := Option.some.inj hv
      trivial
    · obtain rfl := Option.some.inj hv
      exact hturns
    · obtain ⟨prompt, hprompt, rfl⟩ := Option.map_eq_some_iff.mp hv.symm
      exact fits_systemOf h hprompt
    · obtain rfl := Option.some.inj hv
      exact hword _
    · obtain ⟨x, hx, rfl⟩ := Option.map_eq_some_iff.mp hv.symm
      exact fits_ofSingle (h.singles x (Chat.Request.mem_singles.mpr (Or.inl hx))) room
    · obtain ⟨x, hx, rfl⟩ := Option.map_eq_some_iff.mp hv.symm
      exact fits_ofSingle (h.singles x (Chat.Request.mem_singles.mpr (Or.inr (Or.inl hx)))) room
    · obtain ⟨n, -, rfl⟩ := Option.map_eq_some_iff.mp hv.symm
      exact hword n
    · obtain ⟨strings, -, rfl⟩ := Option.map_eq_some_iff.mp hv.symm
      exact fits_ofStrings strings (by omega)
    · split at hv
      · obtain rfl := Option.some.inj hv
        trivial
      · exact absurd hv (by simp)
  · obtain ⟨e, he, heq⟩ := List.mem_map.mp hbehind
    rw [← Option.some.inj (Prod.mk.inj heq).2]
    exact hextra e he

end ModelRelay.Claude
