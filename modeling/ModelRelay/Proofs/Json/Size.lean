import ModelRelay.Proofs.Decimal.Width
import ModelRelay.Proofs.Json.Printing

/-!
# How large a value is

The size of a value counts its parts and the characters of its strings. A text is never shorter than
what it spells is large (`size_root_le`), taking the canonical form makes nothing larger
(`size_le_of_toJson?`), and printed again a value is at most a fixed number of times as long as it
is large (`length_print_lt`). So **what is printed of a value is bounded by the text that it was
read from**, although a few bytes of that text may stand for a number that takes many to print.

The first part is an account: each byte that the reader takes pays for one part or one character.
`Pays` states it of a value that was scanned, with what is left of the text on the other side, and
`ItemsPay` and `MembersPay` of a list that is being scanned, where what was read before counts too.
The three scanners call one another, each with less fuel, and `pays_scanned` is the one induction. A
scan that runs out of text pays nothing; there is nothing left to account for.

The last part is the other way around and needs no reader: each part of a value prints at most so
many characters, of which the numbers need the most.
-/

set_option autoImplicit false

namespace ModelRelay

/-! ## Sizes

Names of members count like strings. A reading is as large as the value it gives, and a mark for
depth counts nothing. -/

namespace Reading

mutual

/-- The parts of a reading and the characters of its strings. -/
def size : Reading → ℕ
  | .cut | .null | .bool _ | .number _ => 1
  | .string s => 1 + s.elim 0 String.length
  | .array items => 1 + sizeItems items
  | .object members => 1 + sizeMembers members
  | .deep value => size value

def sizeItems : List Reading → ℕ
  | [] => 0
  | item :: rest => size item + sizeItems rest

def sizeMembers : List (Option String × Reading) → ℕ
  | [] => 0
  | (name, value) :: rest => 1 + name.elim 0 String.length + size value + sizeMembers rest

end

theorem size_pos : ∀ r : Reading, 0 < r.size
  | .cut | .null | .bool _ | .number _ => Nat.one_pos
  | .string _ | .array _ | .object _ => Nat.add_pos_left Nat.one_pos _
  | .deep value => size_pos value

theorem sizeItems_eq_sum (items : List Reading) : sizeItems items = (items.map size).sum := by
  induction items with
  | nil => rfl
  | cons item rest ih => rw [sizeItems, ih, List.map_cons, List.sum_cons]

theorem sizeMembers_eq_sum (members : List (Option String × Reading)) : sizeMembers members
    = (members.map fun m => 1 + m.1.elim 0 String.length + size m.2).sum := by
  induction members with
  | nil => rfl
  | cons m rest ih => rw [sizeMembers, ih, List.map_cons, List.sum_cons]

/-- The scanners gather backwards, which does not change a sum. -/
theorem sizeItems_reverse (items : List Reading) : sizeItems items.reverse = sizeItems items := by
  rw [sizeItems_eq_sum, sizeItems_eq_sum, List.map_reverse, List.sum_reverse]

theorem sizeMembers_reverse (members : List (Option String × Reading)) :
    sizeMembers members.reverse = sizeMembers members := by
  rw [sizeMembers_eq_sum, sizeMembers_eq_sum, List.map_reverse, List.sum_reverse]

end Reading

namespace Json

mutual

/-- The parts of a value and the characters of its strings. -/
def size : Json → ℕ
  | .null | .bool _ | .number _ => 1
  | .string s => 1 + s.length
  | .array items => 1 + sizeItems items
  | .object members => 1 + sizeMembers members

def sizeItems : List Json → ℕ
  | [] => 0
  | item :: rest => size item + sizeItems rest

def sizeMembers : List (String × Json) → ℕ
  | [] => 0
  | (name, value) :: rest => 1 + name.length + size value + sizeMembers rest

end

theorem sizeMembers_append (members others : List (String × Json)) :
    sizeMembers (members ++ others) = sizeMembers members + sizeMembers others := by
  induction members with
  | nil => exact (Nat.zero_add _).symm
  | cons m rest ih =>
    rw [List.cons_append, sizeMembers, sizeMembers, ih]
    omega

theorem size_le_of_lookup {members : List (String × Json)} {name : String} {value : Json}
    (h : members.lookup name = some value) :
    name.length + value.size + 2 ≤ (object members).size := by
  induction members with
  | nil => nomatch h
  | cons m rest ih =>
    obtain ⟨other, held⟩ := m
    rw [lookup_cons_eq] at h
    rw [size, sizeMembers]
    split_ifs at h with hname
    · obtain rfl : name = other := hname
      obtain rfl : held = value := Option.some.inj h
      omega
    · have hrest := ih h
      rw [size] at hrest
      omega

/-! ## Canonical forms

An insertion either adds a member or replaces one, and replacing one drops what it weighed. -/

theorem sizeMembers_insertSorted_le (name : String) (value : Json)
    (members : List (String × Json)) : sizeMembers (insertSorted name value members)
      ≤ 1 + name.length + value.size + sizeMembers members := by
  induction members with
  | nil => exact le_rfl
  | cons m rest ih =>
    obtain ⟨other, held⟩ := m
    rw [insertSorted]
    split_ifs <;> simp only [sizeMembers]
    · exact le_rfl
    · omega
    · omega

theorem sizeMembers_sortMembers_le (members : List (String × Json)) :
    sizeMembers (sortMembers members) ≤ sizeMembers members := by
  induction members using List.reverseRecOn with
  | nil => exact le_rfl
  | append_singleton members m ih =>
    obtain ⟨name, value⟩ := m
    have hinsert := sizeMembers_insertSorted_le name value (sortMembers members)
    rw [sortMembers_concat, sizeMembers_append, sizeMembers, sizeMembers]
    dsimp only
    omega

end Json

namespace Reading

mutual

/-- **A value that is held is no larger than what it was read from.** -/
theorem size_le_of_toJson? : ∀ {r : Reading} {j : Json}, r.toJson? = some j → j.size ≤ r.size
  | .null, _, h | .bool _, _, h => by
    rw [← Option.some.inj h]
    exact le_rfl
  | .number n, j, h => by
    obtain ⟨m, -, rfl⟩ := Option.map_eq_some_iff.mp h
    exact le_rfl
  | .string s, j, h => by
    obtain ⟨text, rfl, rfl⟩ := Option.map_eq_some_iff.mp h
    exact le_rfl
  | .array items, j, h => by
    obtain ⟨values, hvalues, rfl⟩ := Option.map_eq_some_iff.mp h
    exact Nat.add_le_add_left (sizeItems_le_of_itemsToJson? hvalues) 1
  | .object members, j, h => by
    obtain ⟨values, hvalues, rfl⟩ := Option.map_eq_some_iff.mp h
    exact Nat.add_le_add_left ((Json.sizeMembers_sortMembers_le values).trans
      (sizeMembers_le_of_membersToJson? hvalues)) 1

theorem sizeItems_le_of_itemsToJson? : ∀ {items : List Reading} {values : List Json},
    itemsToJson? items = some values → Json.sizeItems values ≤ sizeItems items
  | [], _, h => by
    rw [← Option.some.inj h]
    exact le_rfl
  | item :: rest, values, h => by
    rw [itemsToJson?] at h
    split at h
    · next j js hj hjs =>
      rw [← Option.some.inj h]
      exact Nat.add_le_add (size_le_of_toJson? hj) (sizeItems_le_of_itemsToJson? hjs)
    · cases h

theorem sizeMembers_le_of_membersToJson? : ∀ {members : List (Option String × Reading)}
    {values : List (String × Json)}, membersToJson? members = some values →
    Json.sizeMembers values ≤ sizeMembers members
  | [], _, h => by
    rw [← Option.some.inj h]
    exact le_rfl
  | (some name, value) :: rest, values, h => by
    rw [membersToJson?] at h
    split at h
    · next j js hj hjs =>
      have hvalue := size_le_of_toJson? hj
      have hrest := sizeMembers_le_of_membersToJson? hjs
      rw [← Option.some.inj h, Json.sizeMembers, sizeMembers, Option.elim_some]
      omega
    · cases h

end

end Reading

/-! ## What is taken off a text

What each part of the reader leaves of a text, from spaces up to strings. Where a part may take
nothing the bound is not strict. -/

namespace Json.Reader

theorem length_skipSpace_le (s : List UInt8) : (skipSpace s).length ≤ s.length :=
  (List.dropWhile_sublist isSpace).length_le

theorem length_spanDigits {s rest : List UInt8} {digits : List ℕ}
    (h : spanDigits s = (digits, rest)) : digits.length + rest.length = s.length := by
  obtain ⟨rfl, rfl⟩ := Prod.mk.inj h
  rw [List.length_map, ← List.length_append, List.takeWhile_append_dropWhile]

theorem length_fraction? {s rest : List UInt8} {digits : List ℕ}
    (h : fraction? s = some (digits, rest)) : rest.length ≤ s.length := by
  rw [fraction?.eq_def] at h
  split at h
  · split at h
    · cases h
    · next hspan =>
      obtain ⟨-, rfl⟩ := Prod.mk.inj (Option.some.inj h)
      have hlength := length_spanDigits hspan
      rw [List.length_cons]
      omega
  · obtain ⟨-, rfl⟩ := Prod.mk.inj (Option.some.inj h)
    exact le_rfl

theorem length_exponent? {s rest : List UInt8} {exponent : Option (Bool × List ℕ)}
    (h : exponent? s = some (exponent, rest)) : rest.length ≤ s.length := by
  rw [exponent?.eq_def] at h
  split at h
  · next b s' =>
    split_ifs at h
    · dsimp only at h
      split at h
      · cases h
      · next hspan =>
        obtain ⟨-, rfl⟩ := Prod.mk.inj (Option.some.inj h)
        split at hspan <;>
        · have hlength := length_spanDigits hspan
          simp only [List.length_cons]
          omega
    · obtain ⟨-, rfl⟩ := Prod.mk.inj (Option.some.inj h)
      exact le_rfl
  · obtain ⟨-, rfl⟩ := Prod.mk.inj (Option.some.inj h)
    exact le_rfl

/-- A numeral has a digit at least. -/
theorem length_lt_of_numeral? {negative : Bool} {s rest : List UInt8} {n : Numeral}
    (h : numeral? negative s = some (n, rest)) : rest.length < s.length := by
  rw [numeral?] at h
  split at h
  · cases h
  · cases h
  · next whole _ hnil _ hspan =>
    have hlength := length_spanDigits hspan
    have hwhole : 0 < whole.length := List.length_pos_iff.mpr hnil
    split at h
    · cases h
    · next hfraction =>
      have hfraction := length_fraction? hfraction
      split at h
      · cases h
      · next hexponent =>
        have hexponent := length_exponent? hexponent
        obtain ⟨-, rfl⟩ := Prod.mk.inj (Option.some.inj h)
        omega

theorem length_lt_of_unit? {s rest : List UInt8} {n : ℕ} (h : unit? s = some (n, rest)) :
    rest.length < s.length := by
  rw [unit?.eq_def] at h
  split at h
  · obtain ⟨a, -, h⟩ := Option.bind_eq_some_iff.mp h
    obtain ⟨b, -, h⟩ := Option.bind_eq_some_iff.mp h
    obtain ⟨c, -, h⟩ := Option.bind_eq_some_iff.mp h
    obtain ⟨d, -, h⟩ := Option.bind_eq_some_iff.mp h
    obtain ⟨-, rfl⟩ := Prod.mk.inj (Option.some.inj h)
    simp only [List.length_cons]
    omega
  · cases h

/-- What follows a backslash takes a byte at least, and stands for one character at most. -/
theorem length_lt_of_escape? {s rest : List UInt8} {c : Option Char}
    (h : escape? s = some (c, rest)) : rest.length < s.length := by
  rw [escape?.eq_def] at h
  split at h
  · cases h
  next b more =>
  have hdone : ∀ {left : List UInt8} {x : Option Char}, left.length ≤ more.length →
      some (x, left) = some (c, rest) → rest.length < (b :: more).length := by
    intro left x hle heq
    obtain ⟨-, rfl⟩ := Prod.mk.inj (Option.some.inj heq)
    exact Nat.lt_succ_of_le hle
  -- Eight letters stand for a character each, and the ninth for a number that follows.
  iterate 8
    replace h := ite_eq_iff.mp h
    obtain ⟨-, h⟩ | ⟨-, h⟩ := h
    · exact hdone le_rfl h
  replace h := ite_eq_iff.mp h
  obtain ⟨-, h⟩ | ⟨-, h⟩ := h
  · split at h
    · cases h
    next high left hunit =>
    have hleft := length_lt_of_unit? hunit
    replace h := ite_eq_iff.mp h
    obtain ⟨-, h⟩ | ⟨-, h⟩ := h
    · exact hdone hleft.le h
    replace h := ite_eq_iff.mp h
    obtain ⟨-, h⟩ | ⟨-, h⟩ := h
    · exact hdone hleft.le h
    split at h
    · next more' =>
      split at h
      · cases h
      next low left' hunit' =>
      have hleft' := length_lt_of_unit? hunit'
      split_ifs at h
      · have hshort : more'.length + 2 < more.length := hleft
        exact hdone (by omega) h
      · exact hdone hleft.le h
    · exact hdone hleft.le h
  · cases h

/-- A string takes up its characters and the quotation mark. -/
theorem length_stringTail {read : Option (List Char)} {fuel : ℕ} {s rest : List UInt8}
    {text : Option String} (h : stringTail read fuel s = (text, some rest)) :
    text.elim 0 String.length + rest.length < read.elim 0 List.length + s.length := by
  induction fuel generalizing read s with
  | zero => nomatch h
  | succ fuel ih =>
    cases s with
    | nil => nomatch h
    | cons b more =>
    rw [stringTail] at h
    rw [List.length_cons]
    -- A quote ends the string, a backslash takes an escape with it, a control character ends all,
    -- and anything else is one character of some bytes.
    split_ifs at h
    · obtain ⟨rfl, hrest⟩ := Prod.mk.inj h
      obtain rfl := Option.some.inj hrest
      cases read <;> simp
    · split at h
      · cases h
      next c more' hescape =>
      have hlt := length_lt_of_escape? hescape
      have htail := ih h
      split at htail <;> simp at htail ⊢ <;> omega
    · cases h
    · split at h
      · cases h
      · next c more' hnext =>
        have hlt := Utf8.length_lt_of_next_char hnext
        have htail := ih h
        cases read <;> simp at hlt htail ⊢ <;> omega
      · next more' hnext =>
        have hlt := Utf8.length_lt_of_next_broken hnext
        have htail := ih h
        simp at hlt htail
        omega

/-- A scanned value takes up as many bytes as it is large. -/
def Pays (scanned : Reading × Rest) (s : List UInt8) : Prop :=
  ∀ rest, scanned.2 = some rest → scanned.1.size + rest.length ≤ s.length

theorem pays_nothing (value : Reading) (s : List UInt8) : Pays (value, none) s :=
  nofun

theorem Pays.of_le {scanned : Reading × Rest} {s s' : List UInt8} (h : Pays scanned s)
    (hle : s.length ≤ s'.length) : Pays scanned s' :=
  fun rest hrest => (h rest hrest).trans hle

theorem pays_literal (w : List UInt8) {value : Reading} (hvalue : value.size = 1) (b : UInt8)
    (s : List UInt8) : Pays (literal w value s) (b :: s) := by
  intro rest h
  rw [literal, word?] at h ⊢
  split_ifs at h ⊢
  · obtain rfl := Option.some.inj h
    simp [hvalue]
    omega

theorem pays_number (negative : Bool) {s s' : List UInt8} (hle : s'.length ≤ s.length) :
    Pays (number negative s') s := by
  intro rest h
  rw [number] at h ⊢
  cases hnumeral : numeral? negative s' with
  | none =>
    rw [hnumeral] at h
    cases h
  | some taken =>
    obtain ⟨n, left⟩ := taken
    rw [hnumeral] at h
    obtain rfl := Option.some.inj h
    have hlt := length_lt_of_numeral? hnumeral
    show 1 + left.length ≤ s.length
    omega

theorem size_atDepth (room : ℕ) (value : Reading) : (atDepth room value).size = value.size := by
  rw [atDepth]
  split <;> rfl

/-- Scanned items take up as many bytes as they are large, beyond those read before. -/
def ItemsPay (scanned : List Reading × Rest) (read : List Reading) (s : List UInt8) : Prop :=
  ∀ rest, scanned.2 = some rest →
    Reading.sizeItems scanned.1 + rest.length ≤ Reading.sizeItems read + s.length

/-- Scanned members take up as many bytes as they are large, beyond those read before. -/
def MembersPay (scanned : List (Option String × Reading) × Rest)
    (read : List (Option String × Reading)) (s : List UInt8) : Prop :=
  ∀ rest, scanned.2 = some rest →
    Reading.sizeMembers scanned.1 + rest.length ≤ Reading.sizeMembers read + s.length

section Scanners

variable {fuel : ℕ}

theorem pays_value (hitems : ∀ room read s, ItemsPay (items room read fuel s) read s)
    (hmembers : ∀ room read s, MembersPay (members room read fuel s) read s) (room : ℕ)
    (s : List UInt8) : Pays (value room (fuel + 1) s) s := by
  have hspace := length_skipSpace_le s
  rw [value]
  generalize skipSpace s = s' at hspace ⊢
  split
  · exact pays_nothing _ _
  next b more =>
  rw [List.length_cons] at hspace
  have hmore := length_skipSpace_le more
  -- The first byte: it pays for the value itself, and what it holds pays for its own.
  split_ifs
  · intro rest h
    dsimp only at h ⊢
    rw [size_atDepth, Reading.size]
    split at h
    · next left hleft =>
      obtain rfl := Option.some.inj h
      rw [hleft, List.length_cons] at hmore
      simp only [Reading.sizeMembers]
      omega
    · next hother =>
      have hrest := hmembers _ _ _ _ h
      rw [Reading.sizeMembers] at hrest
      omega
  · intro rest h
    dsimp only at h ⊢
    rw [size_atDepth, Reading.size]
    split at h
    · next left hleft =>
      obtain rfl := Option.some.inj h
      rw [hleft, List.length_cons] at hmore
      simp only [Reading.sizeItems]
      omega
    · next hother =>
      have hrest := hitems _ _ _ _ h
      rw [Reading.sizeItems] at hrest
      omega
  · split
    · exact pays_nothing _ _
    · next text left hstring =>
      intro rest h
      obtain rfl := Option.some.inj h
      have htail := length_stringTail hstring
      rw [Option.elim_some, List.length_nil] at htail
      rw [Reading.size]
      omega
  · exact pays_number true (by omega)
  · exact pays_number false hspace
  · exact (pays_literal _ rfl b more).of_le hspace
  · exact (pays_literal _ rfl b more).of_le hspace
  · exact (pays_literal _ rfl b more).of_le hspace
  · exact pays_nothing _ _

theorem pays_items (hvalue : ∀ room s, Pays (value room fuel s) s)
    (hitems : ∀ room read s, ItemsPay (items room read fuel s) read s) (room : ℕ)
    (read : List Reading) (s : List UInt8) :
    ItemsPay (items room read (fuel + 1) s) read s := by
  intro rest
  have hitem := hvalue room s
  rw [items]
  split
  · exact fun h => absurd h.symm (Option.some_ne_none _)
  next item left hscanned =>
  have hpaid := hitem left (by rw [hscanned])
  rw [hscanned] at hpaid
  have hleft := length_skipSpace_le left
  split
  · next more hmore =>
    rw [hmore, List.length_cons] at hleft
    intro h
    have hrest := hitems _ _ _ _ h
    rw [Reading.sizeItems] at hrest
    dsimp only at hpaid
    omega
  · next more hmore =>
    rw [hmore, List.length_cons] at hleft
    intro h
    obtain rfl := Option.some.inj h
    rw [Reading.sizeItems_reverse, Reading.sizeItems]
    dsimp only at hpaid
    omega
  · exact fun h => absurd h.symm (Option.some_ne_none _)

/-- Each member pays: the quotes for the name as a part, and the rest as for a value. -/
theorem pays_members (hvalue : ∀ room s, Pays (value room fuel s) s)
    (hmembers : ∀ room read s, MembersPay (members room read fuel s) read s) (room : ℕ)
    (read : List (Option String × Reading)) (s : List UInt8) :
    MembersPay (members room read (fuel + 1) s) read s := by
  intro rest
  have hspace := length_skipSpace_le s
  rw [members]
  split
  · next more hmore =>
    rw [hmore, List.length_cons] at hspace
    split
    · exact fun h => absurd h.symm (Option.some_ne_none _)
    next name afterName hname =>
    have hname := length_stringTail hname
    rw [Option.elim_some, List.length_nil] at hname
    have hcolon := length_skipSpace_le afterName
    split
    · next afterColon hafterColon =>
      rw [hafterColon, List.length_cons] at hcolon
      have hheld := hvalue room afterColon
      split
      · exact fun h => absurd h.symm (Option.some_ne_none _)
      next held left hscanned =>
      -- The value has paid for itself with the bytes up to what is left.
      have hpaid := hheld left (by rw [hscanned])
      rw [hscanned] at hpaid
      dsimp only at hpaid
      have hleft := length_skipSpace_le left
      split
      · next after hafter =>
        rw [hafter, List.length_cons] at hleft
        intro h
        have hrest := hmembers _ _ _ _ h
        rw [Reading.sizeMembers] at hrest
        omega
      · next after hafter =>
        rw [hafter, List.length_cons] at hleft
        intro h
        obtain rfl := Option.some.inj h
        rw [Reading.sizeMembers_reverse, Reading.sizeMembers]
        omega
      · exact fun h => absurd h.symm (Option.some_ne_none _)
    · exact fun h => absurd h.symm (Option.some_ne_none _)
  · exact fun h => absurd h.symm (Option.some_ne_none _)

end Scanners

/-- The three scanners call one another with less fuel. -/
theorem pays_scanned (fuel : ℕ) :
    (∀ room s, Pays (value room fuel s) s) ∧
    (∀ room read s, ItemsPay (items room read fuel s) read s) ∧
    ∀ room read s, MembersPay (members room read fuel s) read s := by
  induction fuel with
  | zero => exact ⟨nofun, nofun, nofun⟩
  | succ fuel ih =>
    obtain ⟨hvalue, hitems, hmembers⟩ := ih
    exact ⟨pays_value hitems hmembers, pays_items hvalue hitems, pays_members hvalue hmembers⟩

end Json.Reader

/-- **A text is no shorter than what it spells is large.** -/
theorem Draft.size_root_le {s : List UInt8} (h : (Draft.ofBytes s).ends = true) :
    (Draft.ofBytes s).root.size ≤ s.length := by
  have hpays := (Json.Reader.pays_scanned (s.length + 1)).1 Draft.depth s
  rw [Draft.ofBytes] at h ⊢
  split at h
  · cases h
  next root rest hscanned =>
  rw [hscanned] at hpays
  have hle := hpays rest rfl
  dsimp only at hle ⊢
  omega

/-! ## Printed values

A character takes six at most, when it is written by its code; a number takes fifty; and each part
needs a comma beside it. -/

namespace Json

theorem length_escapeChar_le (c : Char) : (escapeChar c).length ≤ 6 := by
  rw [escapeChar]
  split_ifs <;> simp

theorem length_flatMap_escapeChar_le (cs : List Char) :
    (cs.flatMap escapeChar).length ≤ 6 * cs.length := by
  induction cs with
  | nil => exact le_rfl
  | cons c rest ih =>
    have hc := length_escapeChar_le c
    rw [List.flatMap_cons, List.length_append, List.length_cons]
    omega

theorem length_quote_le (s : String) : (quote s).length ≤ 6 * s.length + 2 := by
  have hescaped := length_flatMap_escapeChar_le s.toList
  rw [String.length_toList] at hescaped
  rw [quote, String.length_ofList, List.length_cons, List.length_append, List.length_singleton]
  omega

/-- **A number is printed in at most fifty characters.** -/
theorem Number.length_print_le {n : Number} (h : n.IsSound) : n.print.length ≤ 50 := by
  have hbinary : ∀ {text : Option String}, (∀ t, text = some t → t.length ≤ 50) →
      (text.getD "null").length ≤ 50 := by
    intro text htext
    cases text with
    | none => decide
    | some t => exact htext t rfl
  cases n with
  | natural n => exact (Nat.repr_length n 50 (by decide) (Nat.lt_trans h (by decide)))
  | negative n =>
    have hdigits := Nat.repr_length n 49 (by decide) (h.2.trans_lt (by decide))
    rw [print, String.length_append]
    show 1 + _ ≤ 50
    omega
  | double x => exact hbinary fun t ht =>
      Binary.length_toJsonText?_le Decimal.spans_double (by decide) (by decide) h.1 ht
  | single x => exact hbinary fun t ht =>
      Binary.length_toJsonText?_le Decimal.spans_single (by decide) (by decide) h.1 ht

theorem length_intercalate_le {separator : String} (h : separator.length = 1)
    (texts : List String) :
    (separator.intercalate texts).length ≤ (texts.map fun t => t.length + 1).sum := by
  rw [← String.length_toList, String.toList_intercalate]
  induction texts with
  | nil => exact le_rfl
  | cons text rest ih =>
    cases rest with
    | nil => simp [String.length_toList]
    | cons next more =>
      simp only [List.map_cons, List.sum_cons, List.intercalate_cons_cons, List.length_append,
        String.length_toList] at ih ⊢
      omega

mutual

/-- **A value is printed in a fixed number of characters for each part of it.** -/
theorem length_print_lt : ∀ {j : Json} {room : ℕ}, j.Fits room → j.print.length < 51 * j.size
  | .null, _, _ => by decide
  | .bool b, _, _ => by cases b <;> decide
  | .number n, _, h => by
    have hnumber := Number.length_print_le h
    rw [print, size]
    omega
  | .string s, _, _ => by
    have hquote := length_quote_le s
    rw [print, size]
    omega
  | .array items, _, h => by
    have hitems := length_printItems_le h.2
    have hjoined := length_intercalate_le (rfl : (",").length = 1) (printItems items)
    rw [print, size, String.length_append, String.length_append]
    show 1 + _ + 1 < _
    omega
  | .object members, _, h => by
    have hmembers := length_printMembers_le h.2
    have hjoined := length_intercalate_le (rfl : (",").length = 1) (printMembers members)
    rw [print, size, String.length_append, String.length_append]
    show 1 + _ + 1 < _
    omega

theorem length_printItems_le : ∀ {items : List Json} {room : ℕ}, AllFit items room →
    ((printItems items).map fun t => t.length + 1).sum ≤ 51 * sizeItems items
  | [], _, _ => le_rfl
  | item :: rest, _, h => by
    have hitem := length_print_lt h.1
    have hrest := length_printItems_le h.2
    rw [printItems, List.map_cons, List.sum_cons, sizeItems]
    omega

theorem length_printMembers_le : ∀ {members : List (String × Json)} {room : ℕ},
    AllMembersFit members room →
    ((printMembers members).map fun t => t.length + 1).sum ≤ 51 * sizeMembers members
  | [], _, _ => le_rfl
  | (name, value) :: rest, _, h => by
    have hname := length_quote_le name
    have hvalue := length_print_lt h.1
    have hrest := length_printMembers_le h.2
    have hcolon : (":" : String).length = 1 := rfl
    rw [printMembers, List.map_cons, List.sum_cons, sizeMembers, String.length_append,
      String.length_append, hcolon]
    omega

end

end Json

end ModelRelay
