import ModelRelay.Proofs.Json.Numbers
import ModelRelay.Proofs.Json.Reading

/-!
# Printed values

**The text of a value is read back as the value** (`spelledBy_print`), except that a number may come
back as the nearest double of what its digits say: `reread` is what it comes back as. Two things are
asked of the value (`Fits`): its numbers can be written at all, and it is nested no deeper than the
reader goes. Strings ask for nothing; what must be escaped is escaped, and every other character
stands for itself.

The statement that the induction goes through is `ReadsAs`. It says more than that a text reads as a
value: the text may be followed by whatever ends a value, the reader needs no more steps than the
text has bytes, and the text begins like a value. The first is what lets the parts of an array be
put together, the second what lets the steps of the parts be counted, and the third what tells an
array of some items from an empty one. There is one lemma for each kind of value, and
`readsAs_print` follows the value that is printed.

Nothing is said here of the text itself, such as how long it is or whether printing it once more
gives the same; `Size` and `Canonical` do.
-/

set_option autoImplicit false

namespace ModelRelay.Json

/-! ## What comes back

Only numbers change, so that what comes back has the shape of what was printed. -/

/-- What the text of a number reads as. -/
def Number.reread (n : Number) : Json :=
  (Json.ofText? n.print).getD .null

mutual

/-- What the text of a value reads as. -/
def reread : Json → Json
  | .number n => n.reread
  | .array items => .array (rereadItems items)
  | .object members => .object (rereadMembers members)
  | .null => .null
  | .bool b => .bool b
  | .string s => .string s

def rereadItems : List Json → List Json
  | [] => []
  | item :: rest => reread item :: rereadItems rest

def rereadMembers : List (String × Json) → List (String × Json)
  | [] => []
  | (name, value) :: rest => (name, reread value) :: rereadMembers rest

end

theorem rereadItems_eq_map (items : List Json) : rereadItems items = items.map reread := by
  induction items with
  | nil => rfl
  | cons item rest ih => rw [rereadItems, ih, List.map_cons]

theorem rereadMembers_eq_map (members : List (String × Json)) :
    rereadMembers members = members.map fun m => (m.1, m.2.reread) := by
  induction members with
  | nil => rfl
  | cons m rest ih => rw [rereadMembers, ih, List.map_cons]

mutual

/-- Every number can be written, and at most so many arrays and objects are nested. -/
def Fits : Json → ℕ → Prop
  | .number n, _ => n.IsSound
  | .array items, room => 0 < room ∧ AllFit items (room - 1)
  | .object members, room => 0 < room ∧ AllMembersFit members (room - 1)
  | .null, _ | .bool _, _ | .string _, _ => True

def AllFit : List Json → ℕ → Prop
  | [], _ => True
  | item :: rest, room => Fits item room ∧ AllFit rest room

def AllMembersFit : List (String × Json) → ℕ → Prop
  | [], _ => True
  | (_, value) :: rest, room => Fits value room ∧ AllMembersFit rest room

end

theorem allFit_iff {items : List Json} {room : ℕ} :
    AllFit items room ↔ ∀ item ∈ items, item.Fits room := by
  induction items with
  | nil => simp [AllFit]
  | cons item rest ih => rw [AllFit, ih, List.forall_mem_cons]

theorem allMembersFit_iff {members : List (String × Json)} {room : ℕ} :
    AllMembersFit members room ↔ ∀ m ∈ members, m.2.Fits room := by
  induction members with
  | nil => simp [AllMembersFit]
  | cons m rest ih => rw [AllMembersFit, ih, List.forall_mem_cons]

namespace Reader

/-! ## Strings

A printed string is a run of characters, each of which stands for itself or behind a backslash. The
reader undoes one of them in one step, so that the steps are never more than the bytes. -/

/-- A character that needs no escape does not begin like one, nor like the end of a string. -/
theorem exists_utf8EncodeChar {c : Char} (hc : ¬ c.toNat < 0x20) (hquote : c ≠ '"')
    (hbackslash : c ≠ '\\') :
    ∃ b more, String.utf8EncodeChar c = b :: more ∧ b ≠ 0x22 ∧ b ≠ 0x5C ∧ ¬ b < 0x20 := by
  have hval : c.val.toNat = c.toNat := rfl
  have hne : ∀ {n : ℕ}, c ≠ Char.ofNat n → c.toNat ≠ n := by
    intro n hn heq
    exact hn (by rw [← heq, Char.ofNat_toNat])
  have hquote' : c.toNat ≠ 0x22 := hne hquote
  have hbackslash' : c.toNat ≠ 0x5C := hne hbackslash
  have hbyte : ∀ {n : ℕ}, n < 256 → n ≠ 0x22 → n ≠ 0x5C → ¬ n < 0x20 →
      UInt8.ofNat n ≠ 0x22 ∧ UInt8.ofNat n ≠ 0x5C ∧ ¬ UInt8.ofNat n < 0x20 := by
    intro n hn h₁ h₂ h₃
    have hnat : (UInt8.ofNat n).toNat = n := UInt8.toNat_ofNat_of_lt' hn
    refine ⟨fun h => h₁ ?_, fun h => h₂ ?_, fun h => h₃ ?_⟩
    · rw [← hnat, h]; rfl
    · rw [← hnat, h]; rfl
    · rw [UInt8.lt_iff_toNat_lt, hnat] at h
      exact h
  rw [String.utf8EncodeChar, hval]
  split_ifs
  · exact ⟨_, _, rfl, hbyte (by omega) hquote' hbackslash' hc⟩
  · exact ⟨_, _, rfl, hbyte (by omega) (by omega) (by omega) (by omega)⟩
  · exact ⟨_, _, rfl, hbyte (by omega) (by omega) (by omega) (by omega)⟩
  · exact ⟨_, _, rfl, hbyte (by omega) (by omega) (by omega) (by omega)⟩

/-- What stands for a character is read as the character, in one step. -/
theorem stringTail_escapeChar (c : Char) (read : List Char) (fuel : ℕ) (s : List UInt8) :
    stringTail (some read) (fuel + 1) (encode (escapeChar c) ++ s)
      = stringTail (some (c :: read)) fuel s := by
  rw [escapeChar]
  split_ifs with h₁ h₂ h₃ h₄ h₅ h₆ h₇ h₈
  · rw [h₁]; rfl
  · rw [h₂]; rfl
  · rw [h₃]; rfl
  · rw [h₄]; rfl
  · rw [h₅]; rfl
  · rw [h₆]; rfl
  · rw [h₇]; rfl
  · -- A control character without a short escape: there are thirty-two, and each is written by its
    -- code.
    have hc : Char.ofNat c.toNat = c := Char.ofNat_toNat c
    generalize c.toNat = n at h₈ hc
    rw [← hc]
    interval_cases n <;> rfl
  · obtain ⟨b, more, hbytes, hquote, hbackslash, hcontrol⟩ := exists_utf8EncodeChar h₈ h₁ h₂
    have hnext : Utf8.next (b :: (more ++ s)) = .char c s := by
      rw [← List.cons_append, ← hbytes]
      exact Utf8.next_utf8EncodeChar c s
    rw [encode_cons, hbytes, encode, List.flatMap_nil, List.append_nil, List.cons_append,
      stringTail]
    simp only [beq_iff_eq, hquote, hbackslash, hcontrol, if_false, hnext, Option.map_some]

theorem length_encode_pos {cs : List Char} (h : cs ≠ []) : 0 < (encode cs).length := by
  obtain ⟨c, rest, rfl⟩ := List.exists_cons_of_ne_nil h
  rw [encode_cons, List.length_append, String.length_utf8EncodeChar]
  exact Nat.add_pos_left c.utf8Size_pos _

theorem escapeChar_ne_nil (c : Char) : escapeChar c ≠ [] := by
  rw [escapeChar]
  split_ifs <;> exact List.cons_ne_nil _ _

/-- What stands for some characters is read as the characters, up to the quote behind them. -/
theorem stringTail_escaped (cs read : List Char) {fuel : ℕ} (rest : List UInt8)
    (hfuel : (encode (cs.flatMap escapeChar)).length < fuel) :
    stringTail (some read) fuel (encode (cs.flatMap escapeChar) ++ 0x22 :: rest)
      = (some (String.ofList (read.reverse ++ cs)), some rest) := by
  induction cs generalizing read fuel with
  | nil =>
    obtain ⟨fuel, rfl⟩ : ∃ k, fuel = k + 1 := ⟨fuel - 1, by omega⟩
    rw [List.append_nil]
    rfl
  | cons c cs ih =>
    obtain ⟨fuel, rfl⟩ : ∃ k, fuel = k + 1 := ⟨fuel - 1, by omega⟩
    have hpos := length_encode_pos (escapeChar_ne_nil c)
    rw [List.flatMap_cons, encode_append, List.length_append] at hfuel
    rw [List.flatMap_cons, encode_append, List.append_assoc, stringTail_escapeChar,
      ih (c :: read) (by omega), List.reverse_cons, List.append_assoc]
    rfl

/-- The characters of a printed string. -/
def quoted (s : String) : List Char :=
  '"' :: (s.toList.flatMap escapeChar ++ ['"'])

theorem toList_quote (s : String) : (quote s).toList = quoted s :=
  String.toList_ofList

theorem encode_quoted (s : String) :
    encode (quoted s) = 0x22 :: (encode (s.toList.flatMap escapeChar) ++ [0x22]) := by
  rw [quoted, encode_cons, encode_append]
  rfl

theorem stringTail_quoted (s : String) {fuel : ℕ} (rest : List UInt8)
    (hfuel : (encode (quoted s)).length ≤ fuel + 1) :
    stringTail (some []) fuel (encode (s.toList.flatMap escapeChar) ++ 0x22 :: rest)
      = (some s, some rest) := by
  rw [encode_quoted, List.length_cons, List.length_append, List.length_singleton] at hfuel
  rw [stringTail_escaped s.toList [] rest (by omega), List.reverse_nil, List.nil_append,
    String.ofList_toList]

/-! ## Texts of values

The room is how many arrays and objects may still open. It is a parameter throughout, and one less
inside of each. -/

section Values

variable {room : ℕ}

theorem skipSpace_cons {b : UInt8} (h : isSpace b = false) (s : List UInt8) :
    skipSpace (b :: s) = b :: s := by
  rw [skipSpace, List.dropWhile_cons, h]
  rfl

/-- The characters read as a value, whatever ends the value behind them, and they begin like no
blank and no closing bracket. -/
structure ReadsAs (room : ℕ) (cs : List Char) (r : Reading) : Prop where
  begins : ∃ b s, encode cs = b :: s ∧ isSpace b = false ∧ b ≠ 0x5D
  reads : ∀ {fuel : ℕ} {rest : List UInt8}, (encode cs).length ≤ fuel → Ends rest →
    value room fuel (encode cs ++ rest) = (r, some rest)

/-- The shape of each proof that a text reads as something: its first byte decides, and one step
goes there. -/
theorem ReadsAs.of_succ {cs : List Char} {r : Reading} {b : UInt8} {s : List UInt8}
    (hencode : encode cs = b :: s) (hspace : isSpace b = false) (hbracket : b ≠ 0x5D)
    (h : ∀ {fuel : ℕ} {rest : List UInt8}, s.length ≤ fuel → Ends rest →
      value room (fuel + 1) (b :: (s ++ rest)) = (r, some rest)) : ReadsAs room cs r where
  begins := ⟨b, s, hencode, hspace, hbracket⟩
  reads := by
    intro fuel rest hfuel hrest
    rw [hencode, List.length_cons] at hfuel
    obtain ⟨fuel, rfl⟩ : ∃ k, fuel = k + 1 := ⟨fuel - 1, by omega⟩
    rw [hencode]
    exact h (by omega) hrest

theorem readsAs_null : ReadsAs room "null".toList .null :=
  .of_succ (b := 0x6E) rfl rfl (by decide) fun _ _ => rfl

theorem readsAs_true : ReadsAs room "true".toList (.bool true) :=
  .of_succ (b := 0x74) rfl rfl (by decide) fun _ _ => rfl

theorem readsAs_false : ReadsAs room "false".toList (.bool false) :=
  .of_succ (b := 0x66) rfl rfl (by decide) fun _ _ => rfl

theorem readsAs_quoted (s : String) : ReadsAs room (quoted s) (.string (some s)) := by
  refine .of_succ (encode_quoted s) rfl (by decide) fun {fuel rest} hfuel _ => ?_
  have htail : stringTail (some []) fuel (encode (s.toList.flatMap escapeChar) ++ 0x22 :: rest)
      = (some s, some rest) := by
    refine stringTail_quoted s rest ?_
    rw [encode_quoted, List.length_cons]
    omega
  rw [List.append_assoc, List.singleton_append]
  simp [value, skipSpace_cons (show isSpace 0x22 = false from rfl), htail]

/-- A number comes back as the number that its text is written for. A sign is read before the
digits. -/
theorem readsAs_number {n : Number} {text : String} (h : n.WrittenAs text) :
    ReadsAs room text.toList (.number (some n)) := by
  obtain ⟨numeral, hvalid, rfl, hnumber⟩ := h
  obtain ⟨d, rest, hwhole⟩ : ∃ d rest, numeral.whole = d :: rest := by
    rcases hvalid.leading with h | ⟨d, rest, h, -⟩ <;> exact ⟨_, _, h⟩
  have hd : d < 10 := hvalid.whole d (hwhole ▸ List.mem_cons_self)
  obtain ⟨more, hwrite⟩ : ∃ more, encode numeral.write = UInt8.ofNat (0x30 + d) :: more := by
    rw [Numeral.write, hwhole, List.map_cons, List.cons_append, List.cons_append,
      encode_digitChar hd]
    exact ⟨_, rfl⟩
  have hread : ∀ {rest : List UInt8}, Ends rest → number numeral.negative
      (encode numeral.write ++ rest) = (.number (some n), some rest) := by
    intro rest hrest
    rw [number, numeral?_write hvalid hrest]
    show (Reading.number numeral.toNumber?, some rest) = _
    rw [hnumber]
  rw [Binary.withSign, String.toList_ofList]
  -- The reader goes by the first byte, a minus or a digit, and the ten digits are tried one by one.
  cases hnegative : numeral.negative with
  | true =>
    rw [hnegative] at hread
    exact .of_succ (b := 0x2D) (encode_cons '-' _) rfl (by decide) fun _ hrest => hread hrest
  | false =>
    rw [hnegative, hwrite] at hread
    refine .of_succ hwrite ?_ ?_ fun {fuel rest} _ hrest => ?_
    · interval_cases d <;> rfl
    · interval_cases d <;> decide
    · have hdigit : value room (fuel + 1) (UInt8.ofNat (0x30 + d) :: (more ++ rest))
          = number false (UInt8.ofNat (0x30 + d) :: (more ++ rest)) := by
        interval_cases d <;> rfl
      rw [hdigit]
      exact hread hrest

theorem ends_cons {b : UInt8} (h : b = 0x2C ∨ b = 0x5D ∨ b = 0x7D) (s : List UInt8) :
    Ends (b :: s) := by
  intro b' hb'
  obtain rfl := Option.some.inj hb'
  exact h

/-- Texts that read as values, with commas between them, read as the values, up to the bracket. The
induction is on the texts and keeps what is read so far. -/
theorem items_intercalate {texts : List (List Char)} {rs : List Reading}
    (h : List.Forall₂ (ReadsAs room) texts rs) (hne : texts ≠ []) (read : List Reading)
    {fuel : ℕ} (rest : List UInt8)
    (hfuel : (encode ([','].intercalate texts)).length < fuel) :
    items room read fuel (encode ([','].intercalate texts) ++ 0x5D :: rest)
      = (read.reverse ++ rs, some rest) := by
  induction h generalizing read fuel with
  | nil => exact absurd rfl hne
  | @cons text r texts rs htext htexts ih =>
    obtain ⟨fuel, rfl⟩ : ∃ k, fuel = k + 1 := ⟨fuel - 1, by omega⟩
    cases texts with
    | nil =>
      cases htexts
      rw [List.intercalate_singleton] at hfuel ⊢
      rw [items, htext.reads (by omega) (ends_cons (by decide) rest)]
      simp only [skipSpace_cons (show isSpace 0x5D = false from rfl), List.reverse_cons]
    | cons next more =>
      -- A comma ends the first value, and the others are read behind it.
      have hsplit : encode ([','].intercalate (text :: next :: more))
          = encode text ++ 0x2C :: encode ([','].intercalate (next :: more)) := by
        rw [List.intercalate_cons_cons, encode_append, encode_append, List.append_assoc]
        rfl
      rw [hsplit, List.length_append, List.length_cons] at hfuel
      rw [hsplit, List.append_assoc, List.cons_append, items,
        htext.reads (by omega) (ends_cons (by decide) _)]
      simp only [skipSpace_cons (show isSpace 0x2C = false from rfl)]
      rw [ih (List.cons_ne_nil _ _) (r :: read) (by omega), List.reverse_cons, List.append_assoc,
        List.singleton_append]

/-- The characters of a printed member. -/
def memberText (m : String × List Char) : List Char :=
  quoted m.1 ++ ':' :: m.2

theorem members_intercalate {ms : List (String × List Char)}
    {rs : List (Option String × Reading)}
    (h : List.Forall₂ (fun m r => r.1 = some m.1 ∧ ReadsAs room m.2 r.2) ms rs) (hne : ms ≠ [])
    (read : List (Option String × Reading)) {fuel : ℕ} (rest : List UInt8)
    (hfuel : (encode ([','].intercalate (ms.map memberText))).length < fuel) :
    members room read fuel (encode ([','].intercalate (ms.map memberText)) ++ 0x7D :: rest)
      = (read.reverse ++ rs, some rest) := by
  induction h generalizing read fuel with
  | nil => exact absurd rfl hne
  | @cons m r ms rs hm hms ih =>
    obtain ⟨name, text⟩ := m
    obtain ⟨found, r⟩ := r
    obtain ⟨rfl, htext⟩ : found = some name ∧ ReadsAs room text r := hm
    obtain ⟨fuel, rfl⟩ : ∃ k, fuel = k + 1 := ⟨fuel - 1, by omega⟩
    -- A member is spelled as its name in quotes, a colon and its value.
    have hmember : ∀ s, encode (memberText (name, text)) ++ s = 0x22 ::
        (encode (name.toList.flatMap escapeChar) ++ 0x22 :: 0x3A :: (encode text ++ s)) := by
      intro s
      rw [memberText, encode_append, encode_quoted]
      simp [encode_cons, String.utf8EncodeChar]
    have hlength : (encode (memberText (name, text))).length
        = (encode (quoted name)).length + 1 + (encode text).length := by
      rw [memberText, encode_append, encode_cons, List.length_append, List.length_append]
      simp [String.utf8EncodeChar]
      omega
    -- Behind the last member stands the brace, behind any other a comma.
    cases ms with
    | nil =>
      cases hms
      rw [List.map_singleton, List.intercalate_singleton] at hfuel ⊢
      rw [hlength] at hfuel
      have hname := fun s => stringTail_quoted name s (show _ ≤ fuel + 1 by omega)
      have hvalue := htext.reads (show _ ≤ fuel by omega) (ends_cons (Or.inr (Or.inr rfl)) rest)
      rw [hmember, members]
      simp only [skipSpace_cons (show isSpace 0x22 = false from rfl), hname,
        skipSpace_cons (show isSpace 0x3A = false from rfl), hvalue,
        skipSpace_cons (show isSpace 0x7D = false from rfl), List.reverse_cons]
    | cons next more =>
      have hsplit : encode ([','].intercalate ((name, text) :: next :: more |>.map memberText))
          = encode (memberText (name, text))
            ++ 0x2C :: encode ([','].intercalate ((next :: more).map memberText)) := by
        rw [List.map_cons, List.map_cons, List.intercalate_cons_cons, encode_append, encode_append,
          List.append_assoc]
        rfl
      rw [hsplit, List.length_append, List.length_cons, hlength] at hfuel
      have hname := fun s => stringTail_quoted name s (show _ ≤ fuel + 1 by omega)
      have hvalue := htext.reads (show _ ≤ fuel by omega) (ends_cons (Or.inl rfl)
        (encode ([','].intercalate ((next :: more).map memberText)) ++ 0x7D :: rest))
      rw [hsplit, List.append_assoc, List.cons_append, hmember, members]
      simp only [skipSpace_cons (show isSpace 0x22 = false from rfl), hname,
        skipSpace_cons (show isSpace 0x3A = false from rfl), hvalue,
        skipSpace_cons (show isSpace 0x2C = false from rfl)]
      rw [ih (List.cons_ne_nil _ _) _ (by omega), List.reverse_cons, List.append_assoc,
        List.singleton_append]

theorem atDepth_of_pos (hroom : 0 < room) (r : Reading) : atDepth room r = r := by
  rw [atDepth]
  exact if_neg hroom.ne'

theorem value_bracket (hroom : 0 < room) {fuel : ℕ} {s rest : List UInt8} {rs : List Reading}
    (h : (match skipSpace s with
      | 0x5D :: rest => ([], some rest)
      | s => items (room - 1) [] fuel s) = (rs, some rest)) :
    value room (fuel + 1) (0x5B :: s) = (.array rs, some rest) := by
  rw [← atDepth_of_pos hroom (.array rs)]
  exact congrArg (fun read => (atDepth room (.array read.1), read.2)) h

theorem value_brace (hroom : 0 < room) {fuel : ℕ} {s rest : List UInt8}
    {rs : List (Option String × Reading)}
    (h : (match skipSpace s with
      | 0x7D :: rest => ([], some rest)
      | s => members (room - 1) [] fuel s) = (rs, some rest)) :
    value room (fuel + 1) (0x7B :: s) = (.object rs, some rest) := by
  rw [← atDepth_of_pos hroom (.object rs)]
  exact congrArg (fun read => (atDepth room (.object read.1), read.2)) h

/-- An array reads as its items. No item begins with the closing bracket, so that an array that has
items is not taken for an empty one. -/
theorem readsAs_array {texts : List (List Char)} {rs : List Reading} (hroom : 0 < room)
    (h : List.Forall₂ (ReadsAs (room - 1)) texts rs) :
    ReadsAs room ('[' :: ([','].intercalate texts ++ [']'])) (.array rs) := by
  have hencode : encode ('[' :: ([','].intercalate texts ++ [']']))
      = 0x5B :: (encode ([','].intercalate texts) ++ [0x5D]) := by
    rw [encode_cons, encode_append]
    rfl
  refine .of_succ hencode rfl (by decide) fun {fuel rest} hfuel _ => ?_
  rw [List.length_append, List.length_singleton] at hfuel
  rw [List.append_assoc, List.singleton_append]
  apply value_bracket hroom
  cases h with
  | nil => rfl
  | @cons text r texts rs htext htexts =>
    have hitems := items_intercalate (.cons htext htexts) (List.cons_ne_nil _ _) [] rest hfuel
    obtain ⟨b, s, hb, hspace, hbracket⟩ := htext.begins
    obtain ⟨more, hmore⟩ : ∃ more, encode ([','].intercalate (text :: texts)) ++ 0x5D :: rest
        = b :: more := by
      cases texts with
      | nil => exact ⟨_, by rw [List.intercalate_singleton, hb]; rfl⟩
      | cons next texts =>
        exact ⟨_, by rw [List.intercalate_cons_cons, encode_append, encode_append, hb]; rfl⟩
    rw [hmore] at hitems ⊢
    rw [skipSpace_cons hspace]
    split
    · rename_i heq
      exact absurd (List.cons.inj heq).1 hbracket
    · exact hitems

theorem readsAs_object {ms : List (String × List Char)} {rs : List (Option String × Reading)}
    (hroom : 0 < room)
    (h : List.Forall₂ (fun m r => r.1 = some m.1 ∧ ReadsAs (room - 1) m.2 r.2) ms rs) :
    ReadsAs room ('\x7b' :: ([','].intercalate (ms.map memberText) ++ ['\x7d'])) (.object rs) := by
  have hencode : encode ('\x7b' :: ([','].intercalate (ms.map memberText) ++ ['\x7d']))
      = 0x7B :: (encode ([','].intercalate (ms.map memberText)) ++ [0x7D]) := by
    rw [encode_cons, encode_append]
    rfl
  refine .of_succ hencode rfl (by decide) fun {fuel rest} hfuel _ => ?_
  rw [List.length_append, List.length_singleton] at hfuel
  rw [List.append_assoc, List.singleton_append]
  apply value_brace hroom
  cases h with
  | nil => rfl
  | @cons m r ms rs hm hms =>
    have hmembers := members_intercalate (.cons hm hms) (List.cons_ne_nil _ _) [] rest hfuel
    obtain ⟨more, hmore⟩ : ∃ more,
        encode ([','].intercalate ((m :: ms).map memberText)) ++ 0x7D :: rest = 0x22 :: more := by
      cases ms with
      | nil => exact ⟨_, rfl⟩
      | cons next ms => exact ⟨_, rfl⟩
    rw [hmore] at hmembers ⊢
    exact hmembers

end Values

end Reader

/-! ## Whole values

A whole text is a value with nothing behind it, which is one of the ways for a value to end. -/

open Reader

/-- A text that reads as a value and ends there. -/
theorem ofText_of_readsAs {text : String} {r : Reading}
    (h : ReadsAs Draft.depth text.toList r) : Draft.ofText text = ⟨r, true⟩ := by
  have hbytes : text.toUTF8.data.toList = encode text.toList := Utf8.toList_toUTF8 text
  have hread := h.reads (Nat.le_succ _) (show Ends [] from nofun)
  rw [List.append_nil] at hread
  rw [Draft.ofText, Draft.ofBytes, hbytes, hread]
  rfl

/-- The text of a number alone reads as the number that it is written for. -/
theorem Number.ofText?_print {n read : Number} (h : read.WrittenAs n.print) :
    ofText? n.print = some (.number read) := by
  have hdraft : Draft.ofBytes n.print.toUTF8.data.toList = ⟨.number (some read), true⟩ :=
    ofText_of_readsAs (readsAs_number h)
  rw [ofText?, ofBytes?, hdraft]
  rfl

/-- What comes back of a number is the number that its text is written for. -/
theorem Number.reread_eq {n read : Number} (h : read.WrittenAs n.print) :
    n.reread = .number read := by
  rw [reread, ofText?_print h]
  rfl

theorem readsAs_print_number {n : Number} (h : n.IsSound) (room : ℕ) :
    ReadsAs room n.print.toList (.ofJson n.reread) := by
  obtain ⟨read, hwritten, -⟩ := Number.exists_writtenAs h
  rw [Number.reread_eq hwritten]
  exact readsAs_number hwritten

mutual

/-- **The text of a value reads as the value that comes back.** -/
theorem readsAs_print : ∀ (j : Json) (room : ℕ), j.Fits room →
    ReadsAs room j.print.toList (.ofJson j.reread)
  | .null, _, _ => readsAs_null
  | .bool true, _, _ => readsAs_true
  | .bool false, _, _ => readsAs_false
  | .number n, room, h => readsAs_print_number h room
  | .string s, _, _ => by
    rw [print, toList_quote]
    exact readsAs_quoted s
  | .array items, room, h => by
    rw [print, String.toList_append, String.toList_append, String.toList_intercalate]
    exact readsAs_array h.1 (readsAs_printItems items (room - 1) h.2)
  | .object members, room, h => by
    rw [print, String.toList_append, String.toList_append, String.toList_intercalate]
    obtain ⟨ms, hms, hall⟩ := readsAs_printMembers members (room - 1) h.2
    rw [hms]
    exact readsAs_object h.1 hall

theorem readsAs_printItems : ∀ (items : List Json) (room : ℕ), AllFit items room →
    List.Forall₂ (ReadsAs room) ((printItems items).map String.toList)
      (Reading.ofItems (rereadItems items))
  | [], _, _ => .nil
  | item :: rest, room, h =>
    .cons (readsAs_print item room h.1) (readsAs_printItems rest room h.2)

theorem readsAs_printMembers : ∀ (members : List (String × Json)) (room : ℕ),
    AllMembersFit members room →
    ∃ ms : List (String × List Char), (printMembers members).map String.toList = ms.map memberText ∧
      List.Forall₂ (fun m r => r.1 = some m.1 ∧ ReadsAs room m.2 r.2) ms
        (Reading.ofMembers (rereadMembers members))
  | [], _, _ => ⟨[], rfl, .nil⟩
  | (name, value) :: rest, room, h => by
    obtain ⟨ms, hms, hall⟩ := readsAs_printMembers rest room h.2
    refine ⟨(name, value.print.toList) :: ms, ?_, .cons ⟨rfl, readsAs_print value room h.1⟩ hall⟩
    rw [printMembers, List.map_cons, List.map_cons, hms, String.toList_append,
      String.toList_append, toList_quote, List.append_assoc]
    rfl

end

/-- **The text of a value spells what comes back of it.** -/
theorem spelledBy_print {j : Json} (h : j.Fits Draft.depth) :
    j.reread.SpelledBy j.print.toUTF8.data.toList :=
  ofText_of_readsAs (readsAs_print j Draft.depth h)

end ModelRelay.Json
