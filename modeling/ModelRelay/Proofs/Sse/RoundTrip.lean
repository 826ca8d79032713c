import ModelRelay.Proofs.Text.Utf8
import ModelRelay.Sse.Event
import ModelRelay.Sse.Frame
import Mathlib.Data.List.Basic

/-!
# Frames that are read back

What is written to a caller is read there by the same rules. A frame is meant to tell one event
(`Frame.told`), and **frames tell just the events that they are meant to tell if no payload has a
line feed in it, and only then** (`ofBytes_encode_iff`): the lines of a payload behind the first are
written without `data:` in front.

One direction is an induction on the frames: each is written as its lines, and these are read as its
event. That nothing else can make up for a broken payload is a matter of size. No line gives more
data than it has characters, and only the first line of a payload gives all that it has, since it
alone has its `data:` written besides. So frames of which one is broken are read as events that have
less data together than those that were meant.

Both directions ask that the events could be events at all: that a name is a line, and that no
carriage return is in a payload. The events of every stream that was read are such
(`isClean_of_mem_ofBytes`).
-/

set_option autoImplicit false

namespace ModelRelay.Sse

open Event

/-! ## Lines

A text is cut at carriage returns, at line feeds, and at a return with a feed behind it, which is
one break. -/

/-- A line has no break in it. -/
def IsLine (l : List Char) : Prop :=
  '\n' ∉ l ∧ '\r' ∉ l

/-- The text of lines that each are ended by LF. -/
def ended (ls : List (List Char)) : List Char :=
  ls.flatMap fun l => l ++ ['\n']

/-- Neither the first character of a line nor the rest of it is a break. -/
theorem IsLine.of_cons {c : Char} {l : List Char} (h : IsLine (c :: l)) :
    c ≠ '\n' ∧ c ≠ '\r' ∧ IsLine l := by
  simp only [IsLine, List.mem_cons, not_or] at h
  exact ⟨Ne.symm h.1.1, Ne.symm h.2.1, h.1.2, h.2.2⟩

theorem linesFrom_cons {c : Char} (hn : c ≠ '\n') (hr : c ≠ '\r') (read : List (List Char))
    (line rest : List Char) :
    linesFrom read line (c :: rest) = linesFrom read (c :: line) rest := by
  rw [linesFrom]
  all_goals simp [hn, hr]

theorem linesFrom_line {l : List Char} (h : IsLine l) (read : List (List Char))
    (line rest : List Char) :
    linesFrom read line (l ++ '\n' :: rest) = linesFrom ((line.reverse ++ l) :: read) [] rest := by
  induction l generalizing line with
  | nil =>
    rw [List.append_nil]
    rfl
  | cons c l ih =>
    obtain ⟨hn, hr, hl⟩ := h.of_cons
    rw [List.cons_append, linesFrom_cons hn hr, ih hl, List.reverse_cons, List.append_assoc]
    rfl

/-- Lines that are ended by a line feed each are read as these lines. -/
theorem lines_ended {ls : List (List Char)} (h : ∀ l ∈ ls, IsLine l) : lines (ended ls) = ls := by
  have hfrom : ∀ read, linesFrom read [] (ended ls) = read.reverse ++ ls := by
    induction ls with
    | nil =>
      intro read
      rw [List.append_nil]
      rfl
    | cons l ls ih =>
      intro read
      have hrest := ih fun l hl => h l (List.mem_cons_of_mem _ hl)
      have hsplit : ended (l :: ls) = l ++ '\n' :: ended ls := by simp [ended]
      rw [hsplit, linesFrom_line (h l List.mem_cons_self), hrest]
      simp
  exact hfrom []

theorem isLine_nil : IsLine [] :=
  ⟨List.not_mem_nil, List.not_mem_nil⟩

theorem IsLine.reverse {l : List Char} (h : IsLine l) : IsLine l.reverse := by
  simpa [IsLine] using h

theorem IsLine.of_suffix {l m : List Char} (h : IsLine m) (hl : l <:+ m) : IsLine l :=
  ⟨fun hn => h.1 (hl.subset hn), fun hr => h.2 (hl.subset hr)⟩

/-- Cutting a text at its breaks gives lines. -/
theorem isLine_linesFrom (read : List (List Char)) (line s : List Char) (hline : IsLine line)
    (hread : ∀ l ∈ read, IsLine l) : ∀ l ∈ linesFrom read line s, IsLine l := by
  have hnext : ∀ (read : List (List Char)) (line : List Char), IsLine line →
      (∀ l ∈ read, IsLine l) → ∀ l ∈ line.reverse :: read, IsLine l := by
    intro read line hline hread l hl
    rcases List.mem_cons.mp hl with rfl | hl
    · exact hline.reverse
    · exact hread l hl
  induction read, line, s using linesFrom.induct with
  | case1 read line => exact fun l hl => hread l (List.mem_reverse.mp hl)
  | case2 read line => exact fun l hl => hread l (List.mem_reverse.mp hl)
  | case3 read line rest ih => exact ih isLine_nil (hnext read line hline hread)
  | case4 read line rest hlast hpair ih =>
    rw [linesFrom]
    · exact ih isLine_nil (hnext read line hline hread)
    · exact hlast
    · exact hpair
  | case5 read line rest ih => exact ih isLine_nil (hnext read line hline hread)
  | case6 read line c rest hlast hpair hr hn ih =>
    have hc : c ≠ '\n' ∧ c ≠ '\r' := ⟨fun h => hn h, fun h => hr h⟩
    rw [linesFrom_cons hc.1 hc.2]
    refine ih ⟨?_, ?_⟩ hread
    · simp only [List.mem_cons, not_or]
      exact ⟨Ne.symm hc.1, hline.1⟩
    · simp only [List.mem_cons, not_or]
      exact ⟨Ne.symm hc.2, hline.2⟩

/-! ## Events of a text

What a line adds to an event that is being read, and that nothing but lines is ever added. -/

/-- The event could have been read from a text: its name is a line and not empty, and LF is the
only break in its data. -/
structure Event.IsClean (e : Event) : Prop where
  named : e.name ≠ ""
  name : IsLine e.name.toList
  data : '\r' ∉ e.data.toList

theorem isLine_field {line : List Char} (h : IsLine line) : IsLine (field line).2 := by
  have hdrop : ∀ n, line.drop n <:+ line := fun n => List.drop_suffix n line
  rw [field]
  generalize hrest : line.drop (line.takeWhile (· != ':')).length = rest
  have hsuffix : rest <:+ line := hrest ▸ hdrop _
  split
  · exact h.of_suffix ((List.suffix_cons _ _).trans ((List.suffix_cons _ _).trans hsuffix))
  · exact h.of_suffix ((List.suffix_cons _ _).trans hsuffix)
  · exact isLine_nil

/-- A line either names the event, or adds a line of data, or adds nothing. -/
theorem add_eq (d : Event.Draft) (line : List Char) :
    (field line).1 = "event".toList ∧ d.add line = { d with name := (field line).2 } ∨
      (field line).1 = "data".toList ∧ d.add line = { d with data := (field line).2 :: d.data } ∨
      d.add line = d := by
  rw [Event.Draft.add]
  split
  · rename_i value hfield
    exact Or.inl ⟨by rw [hfield]; rfl, by rw [hfield]⟩
  · rename_i value hfield
    exact Or.inr (Or.inl ⟨by rw [hfield]; rfl, by rw [hfield]⟩)
  · exact Or.inr (Or.inr rfl)

theorem joinLines_not_cr {ls : List (List Char)} (h : ∀ l ∈ ls, IsLine l) :
    '\r' ∉ joinLines ls := by
  induction ls using joinLines.induct with
  | case1 => exact List.not_mem_nil
  | case2 line => exact (h line (List.mem_singleton_self _)).2
  | case3 line rest hne ih =>
    rw [joinLines]
    · simp only [List.mem_append, List.mem_cons, not_or]
      exact ⟨(h line List.mem_cons_self).2, by decide,
        ih fun l hl => h l (List.mem_cons_of_mem _ hl)⟩
    · exact hne

theorem isClean_of_finish? {d : Event.Draft} {e : Event} (hname : IsLine d.name)
    (hdata : ∀ l ∈ d.data, IsLine l) (h : d.finish? = some e) : e.IsClean := by
  rw [Event.Draft.finish?] at h
  split at h
  · nomatch h
  · rw [← Option.some.inj h]
    refine ⟨?_, ?_, ?_⟩
    · dsimp only
      split
      · decide
      · rename_i hne
        intro heq
        exact hne (by simpa using congrArg String.toList heq)
    · dsimp only
      split
      · exact ⟨by decide, by decide⟩
      · rwa [String.toList_ofList]
    · rw [String.toList_ofList]
      exact joinLines_not_cr fun l hl => hdata l (List.mem_reverse.mp hl)

/-- The events of some lines are clean, and the draft that is read with them stays one of lines. -/
theorem isClean_ofLinesFrom {events : List Event} {d : Event.Draft} {ls : List (List Char)}
    (hevents : ∀ e ∈ events, e.IsClean) (hname : IsLine d.name) (hdata : ∀ l ∈ d.data, IsLine l)
    (hls : ∀ l ∈ ls, IsLine l) : ∀ e ∈ ofLinesFrom events d ls, e.IsClean := by
  have hrest : ∀ {l : List Char} {ls : List (List Char)}, (∀ m ∈ l :: ls, IsLine m) →
      ∀ m ∈ ls, IsLine m := fun h m hm => h m (List.mem_cons_of_mem _ hm)
  -- The induction follows the reader: no lines, a blank one that ends an event or none, and any
  -- other.
  induction events, d, ls using ofLinesFrom.induct with
  | case1 events d => exact fun e he => hevents e (List.mem_reverse.mp he)
  | case2 events d rest event hfinish ih =>
    rw [ofLinesFrom, hfinish]
    refine ih (fun e he => ?_) isLine_nil (fun l hl => absurd hl List.not_mem_nil) (hrest hls)
    rcases List.mem_cons.mp he with rfl | he
    · exact isClean_of_finish? hname hdata hfinish
    · exact hevents e he
  | case3 events d rest hfinish ih =>
    rw [ofLinesFrom, hfinish]
    exact ih hevents isLine_nil (fun l hl => absurd hl List.not_mem_nil) (hrest hls)
  | case4 events d line rest hne ih =>
    rw [ofLinesFrom]
    · have hline := isLine_field (hls line List.mem_cons_self)
      rcases add_eq d line with ⟨-, hadd⟩ | ⟨-, hadd⟩ | hadd
      · rw [hadd] at ih ⊢
        exact ih hevents hline hdata (hrest hls)
      · rw [hadd] at ih ⊢
        refine ih hevents hname (fun l hl => ?_) (hrest hls)
        rcases List.mem_cons.mp hl with rfl | hl
        · exact hline
        · exact hdata l hl
      · rw [hadd] at ih ⊢
        exact ih hevents hname hdata (hrest hls)
    · exact hne

/-- What is read is clean, whatever the bytes are. -/
theorem isClean_of_mem_ofBytes {s : List UInt8} {e : Event} (h : e ∈ (ofBytes s).1) :
    e.IsClean := by
  have hclean : ∀ s : List Char, ∀ e ∈ ofLinesFrom [] {} (lines s), e.IsClean := fun s =>
    isClean_ofLinesFrom (fun e he => absurd he List.not_mem_nil) isLine_nil
      (fun l hl => absurd hl List.not_mem_nil)
      (isLine_linesFrom [] [] s isLine_nil fun l hl => absurd hl List.not_mem_nil)
  have h : e ∈ ofChars (Utf8.longestText s).1 := h
  unfold ofChars at h
  exact hclean _ e h

theorem ofBytes_toUTF8 (s : String) : ofBytes s.toUTF8.data.toList = (ofChars s.toList, true) := by
  rw [ofBytes, Utf8.longestText_toUTF8]

/-! ## Frames as lines

A frame is its lines, each ended by a line feed: a name if it has one, its payload cut at its line
feeds, and a blank line. -/

theorem ended_append (ls ms : List (List Char)) : ended (ls ++ ms) = ended ls ++ ended ms :=
  List.flatMap_append

/-- A text that is cut at its line feeds is made up of the pieces again. -/
theorem ended_splitOn (s : List Char) : ended (s.splitOn '\n') = s ++ ['\n'] := by
  induction s with
  | nil => rfl
  | cons c s ih =>
    rw [List.splitOn_cons_eq_if_modifyHead]
    by_cases hc : c = '\n'
    · subst hc
      rw [if_pos (beq_self_eq_true _)]
      exact congrArg ('\n' :: ·) ih
    · rw [if_neg (by simpa using hc)]
      cases hs : s.splitOn '\n' with
      | nil => exact absurd hs (List.splitOn_ne_nil _ _)
      | cons l ls =>
        rw [hs] at ih
        exact congrArg (c :: ·) ih

theorem isLine_of_mem_splitOn {s l : List Char} (hs : '\r' ∉ s) (h : l ∈ s.splitOn '\n') :
    IsLine l := by
  induction s generalizing l with
  | nil =>
    rw [List.splitOn_nil, List.mem_singleton] at h
    exact h ▸ isLine_nil
  | cons c s ih =>
    rw [List.mem_cons, not_or] at hs
    rw [List.splitOn_cons_eq_if_modifyHead] at h
    by_cases hc : c = '\n'
    · rw [if_pos (by simpa using hc)] at h
      rcases List.mem_cons.mp h with rfl | h
      · exact isLine_nil
      · exact ih hs.2 h
    · rw [if_neg (by simpa using hc)] at h
      cases hsplit : s.splitOn '\n' with
      | nil => exact absurd hsplit (List.splitOn_ne_nil _ _)
      | cons m ms =>
        rw [hsplit] at h ih
        rcases List.mem_cons.mp h with rfl | h
        · have hm := ih hs.2 List.mem_cons_self
          simp only [IsLine, List.mem_cons, not_or]
          exact ⟨⟨Ne.symm hc, hm.1⟩, hs.1, hm.2⟩
        · exact ih hs.2 (List.mem_cons_of_mem _ h)

namespace Frame

/-- What a frame carries. -/
def payload : Frame → String
  | .data payload => payload
  | .event _ payload => payload
  | .done => "[DONE]"

/-- The event that a frame is meant to tell. -/
def told : Frame → Event
  | .data payload => ⟨"message", payload⟩
  | .event name payload => ⟨name, payload⟩
  | .done => ⟨"message", "[DONE]"⟩

theorem data_told (f : Frame) : f.told.data = f.payload := by
  cases f <;> rfl

/-- The line with the name, if there is one. -/
def nameLines : Frame → List (List Char)
  | .event name _ => ["event: ".toList ++ name.toList]
  | .data _ | .done => []

/-- The lines that are written for a frame. Of a payload only the first is marked as data. -/
def lines (f : Frame) : List (List Char) :=
  f.nameLines ++ ("data: ".toList ++ f.payload.toList).splitOn '\n' ++ [[]]

theorem toList_encode (f : Frame) : f.encode.toList = ended f.lines := by
  rw [lines, ended_append, ended_append, ended_splitOn]
  cases f with
  | data payload => simp [encode, nameLines, ended, Frame.payload]
  | event name payload => simp [encode, nameLines, ended, Frame.payload]
  | done => rfl

theorem isLine_of_mem_lines {f : Frame} (h : f.told.IsClean) {l : List Char} (hl : l ∈ f.lines) :
    IsLine l := by
  have hdata := h.data
  rw [data_told] at hdata
  rcases List.mem_append.mp hl with hl | hl
  · rcases List.mem_append.mp hl with hl | hl
    · cases f with
      | event name payload =>
        rw [List.mem_singleton.mp hl]
        have hname : IsLine name.toList := h.name
        constructor
        · simpa using hname.1
        · simpa using hname.2
      | data payload => exact absurd hl List.not_mem_nil
      | done => exact absurd hl List.not_mem_nil
    · exact isLine_of_mem_splitOn (by simpa using hdata) hl
  · rw [List.mem_singleton.mp hl]
    exact isLine_nil

end Frame

/-- No frame begins with a byte order mark. -/
theorem ofChars_ended (frames : List Frame) :
    ofChars (ended (frames.flatMap Frame.lines))
      = ofLinesFrom [] {} (Event.lines (ended (frames.flatMap Frame.lines))) := by
  have hhead : ∀ rest, ended (frames.flatMap Frame.lines) ≠ '\uFEFF' :: rest := by
    intro rest
    cases frames with
    | nil => simp [ended]
    | cons f frames =>
      rw [List.flatMap_cons, ended_append, ← f.toList_encode]
      cases f <;> simp [Frame.encode]
  unfold ofChars
  split
  · rename_i rest hbom
    exact absurd hbom (hhead rest)
  · rfl

/-- The text of frames is their lines, so these are what is read of it. -/
theorem ofBytes_encode {frames : List Frame} (h : ∀ f ∈ frames, f.told.IsClean) :
    ofBytes (String.join (frames.map Frame.encode)).toUTF8.data.toList
      = (ofLinesFrom [] {} (frames.flatMap Frame.lines), true) := by
  have htext : (String.join (frames.map Frame.encode)).toList
      = ended (frames.flatMap Frame.lines) := by
    rw [String.toList_join, List.flatMap_map, ended, List.flatMap_assoc]
    exact List.flatMap_congr fun f _ => f.toList_encode
  have hlines : Event.lines (ended (frames.flatMap Frame.lines)) = frames.flatMap Frame.lines := by
    apply lines_ended
    intro l hl
    obtain ⟨f, hf, hl⟩ := List.mem_flatMap.mp hl
    exact Frame.isLine_of_mem_lines (h f hf) hl
  rw [ofBytes_toUTF8, htext, ofChars_ended, hlines]

/-! ## Payloads of one line

The payload is the one line of data, and the blank line behind it ends the event. -/

/-- The lines of a frame whose event is clean are read as the event, whatever was read before. -/
theorem ofLinesFrom_frame {f : Frame} (h : f.told.IsClean) (hline : '\n' ∉ f.payload.toList)
    (events : List Event) (rest : List (List Char)) :
    ofLinesFrom events {} (f.lines ++ rest) = ofLinesFrom (f.told :: events) {} rest := by
  have hsplit : ("data: ".toList ++ f.payload.toList).splitOn '\n'
      = ["data: ".toList ++ f.payload.toList] := by
    apply List.splitOn_eq_singleton
    simpa using hline
  rw [Frame.lines, hsplit]
  cases f with
  | data payload =>
    show ofLinesFrom (⟨"message", String.ofList payload.toList⟩ :: events) {} rest = _
    rw [String.ofList_toList]
    rfl
  | done => rfl
  | event name payload =>
    have hname : name.toList.isEmpty = false := by
      have hnamed : name ≠ "" := h.named
      cases hl : name.toList with
      | nil => exact absurd (String.toList_eq_nil_iff.mp hl) hnamed
      | cons c cs => rfl
    show ofLinesFrom (⟨if name.toList.isEmpty then "message" else String.ofList name.toList,
      String.ofList payload.toList⟩ :: events) {} rest = _
    rw [hname, String.ofList_toList, if_neg Bool.false_ne_true, String.ofList_toList]
    rfl

theorem ofLinesFrom_frames {frames : List Frame} (h : ∀ f ∈ frames, f.told.IsClean)
    (hlines : ∀ f ∈ frames, '\n' ∉ f.payload.toList) (events : List Event) :
    ofLinesFrom events {} (frames.flatMap Frame.lines)
      = events.reverse ++ frames.map Frame.told := by
  induction frames generalizing events with
  | nil =>
    rw [List.map_nil, List.append_nil]
    rfl
  | cons f frames ih =>
    rw [List.flatMap_cons,
      ofLinesFrom_frame (h f List.mem_cons_self) (hlines f List.mem_cons_self),
      ih (fun g hg => h g (List.mem_cons_of_mem _ hg))
        (fun g hg => hlines g (List.mem_cons_of_mem _ hg))]
    simp

/-! ## Payloads of several lines

How much data an event has is compared with how many characters its lines have. A line of data is
counted with its break, as the data of an event is joined by breaks. -/

/-- The characters of the data, and one more for each of its lines. -/
def Event.size (e : Event) : Nat :=
  e.data.toList.length + 1

def Event.Draft.size (d : Event.Draft) : Nat :=
  (ended d.data).length

/-- What a line adds to a draft. -/
def lineSize (l : List Char) : Nat :=
  (Event.Draft.add {} l).size

theorem length_ended_cons (l : List Char) (ls : List (List Char)) :
    (ended (l :: ls)).length = l.length + 1 + (ended ls).length := by
  simp [ended]
  omega

theorem length_joinLines {ls : List (List Char)} (h : ls ≠ []) :
    (joinLines ls).length + 1 = (ended ls).length := by
  induction ls using joinLines.induct with
  | case1 => exact absurd rfl h
  | case2 line => simp [joinLines, ended]
  | case3 line rest hne ih =>
    rw [joinLines, length_ended_cons, ← ih (fun heq => by simp [heq] at hne)]
    · simp
      omega
    · exact hne

theorem size_add (d : Event.Draft) (l : List Char) : (d.add l).size = d.size + lineSize l := by
  rw [lineSize]
  have hsame : ∀ value : List Char,
      Event.Draft.size { d with data := value :: d.data }
        = d.size + Event.Draft.size { data := [value] } := by
    intro value
    simp only [Event.Draft.size, length_ended_cons]
    exact Nat.add_comm _ _
  unfold Event.Draft.add
  split
  · rfl
  · exact hsame _
  · rfl

theorem size_of_finish? {d : Event.Draft} {e : Event} (h : d.finish? = some e) :
    e.size = d.size := by
  rw [Event.Draft.finish?] at h
  split at h
  · nomatch h
  · rename_i hdata
    have hne : d.data.reverse ≠ [] := by simpa using hdata
    rw [← Option.some.inj h, Event.size, String.toList_ofList, length_joinLines hne]
    simp [ended, Event.Draft.size]

theorem length_field (l : List Char) : (field l).1.length + (field l).2.length ≤ l.length := by
  have hlength : (l.takeWhile (· != ':')).length
      + (l.drop (l.takeWhile (· != ':')).length).length = l.length := by
    have hle := (List.takeWhile_prefix (l := l) (· != ':')).length_le
    rw [List.length_drop]
    omega
  rw [field]
  generalize l.drop (l.takeWhile (· != ':')).length = rest at hlength ⊢
  split
  · simp only [List.length_cons] at hlength
    dsimp only
    omega
  · simp only [List.length_cons] at hlength
    dsimp only
    omega
  · dsimp only [List.length_nil]
    omega

/-- A line of data spends four characters on its name at least. -/
theorem lineSize_le (l : List Char) : lineSize l ≤ l.length := by
  rw [lineSize]
  rcases add_eq {} l with ⟨-, hadd⟩ | ⟨hname, hadd⟩ | hadd
  · rw [hadd]
    exact Nat.zero_le _
  · have hlength := length_field l
    rw [hname] at hlength
    have hfour : "data".toList.length = 4 := rfl
    rw [hadd, Event.Draft.size, length_ended_cons]
    show (field l).2.length + 1 + 0 ≤ _
    omega
  · rw [hadd]
    exact Nat.zero_le _

theorem size_ofLinesFrom (d : Event.Draft) (ls : List (List Char)) :
    ((ofLinesFrom [] d ls).map Event.size).sum ≤ d.size + (ls.map lineSize).sum := by
  -- The events that are read already are counted in, for the induction adds to them.
  have hfrom : ∀ events, ((ofLinesFrom events d ls).map Event.size).sum
      ≤ (events.map Event.size).sum + d.size + (ls.map lineSize).sum := by
    intro events
    induction events, d, ls using ofLinesFrom.induct with
    | case1 events d =>
      rw [ofLinesFrom, List.map_reverse, List.sum_reverse]
      simp
    | case2 events d rest event hfinish ih =>
      rw [ofLinesFrom, hfinish]
      have hsize := size_of_finish? hfinish
      have hzero : Event.Draft.size {} = 0 := rfl
      simp only [List.map_cons, List.sum_cons] at ih ⊢
      omega
    | case3 events d rest hfinish ih =>
      rw [ofLinesFrom, hfinish]
      have hzero : Event.Draft.size {} = 0 := rfl
      simp only [List.map_cons, List.sum_cons] at ih ⊢
      omega
    | case4 events d line rest hne ih =>
      rw [ofLinesFrom]
      · rw [size_add] at ih
        simp only [List.map_cons, List.sum_cons] at ih ⊢
        omega
      · exact hne
  have h := hfrom []
  simpa using h

/-! ## Frames and their size

A frame without a line feed in its payload gives all of its data. One with a line feed cannot,
whatever the lines behind the first look like. -/

/-- The lines of a text that are not marked give no more data than the text has characters. -/
theorem sum_lineSize_splitOn (s : List Char) :
    ((s.splitOn '\n').map lineSize).sum ≤ s.length := by
  have hle : ∀ ls : List (List Char), (ls.map lineSize).sum + ls.length ≤ (ended ls).length := by
    intro ls
    induction ls with
    | nil => exact le_rfl
    | cons l ls ih =>
      have hl := lineSize_le l
      rw [length_ended_cons]
      simp only [List.map_cons, List.sum_cons, List.length_cons]
      omega
  have hsplit := hle (s.splitOn '\n')
  have hpos : 0 < (s.splitOn '\n').length := List.length_pos_of_ne_nil (List.splitOn_ne_nil _ _)
  rw [ended_splitOn] at hsplit
  simp only [List.length_append, List.length_singleton] at hsplit
  omega

theorem lineSize_data (s : List Char) : lineSize ("data: ".toList ++ s) = s.length + 1 := by
  show (ended [s]).length = _
  simp [ended]

/-- The lines of a frame give no more data than its event has, and less if LF is in its payload. -/
theorem sum_lineSize_lines (f : Frame) :
    (f.lines.map lineSize).sum ≤ f.told.size ∧
      ('\n' ∈ f.payload.toList → (f.lines.map lineSize).sum < f.told.size) := by
  have hname : (f.nameLines.map lineSize).sum = 0 := by
    cases f <;> rfl
  have hblank : lineSize [] = 0 := rfl
  have hsize : f.told.size = f.payload.toList.length + 1 := by
    rw [Event.size, Frame.data_told]
  have hsum : (f.lines.map lineSize).sum
      = ((("data: ".toList ++ f.payload.toList).splitOn '\n').map lineSize).sum := by
    simp [Frame.lines, hname, hblank]
  rw [hsum, hsize]
  by_cases hlf : '\n' ∈ f.payload.toList
  · obtain ⟨first, rest, hpayload, hfirst⟩ := List.eq_append_cons_of_mem hlf
    have hrest := sum_lineSize_splitOn rest
    rw [hpayload, ← List.append_assoc,
      List.splitOn_append_cons_self_of_not_mem (by simpa using hfirst), List.map_cons,
      List.sum_cons, lineSize_data]
    simp only [List.length_append, List.length_cons]
    omega
  · rw [List.splitOn_eq_singleton (by simpa using hlf)]
    simp only [List.map_cons, List.map_nil, List.sum_cons, List.sum_nil, lineSize_data]
    exact ⟨by omega, fun h => absurd h hlf⟩

/-- Frames one behind the other: their lines give no more data than they tell, and less if one of
them is broken. -/
theorem sum_lineSize_frames (frames : List Frame) :
    ((frames.flatMap Frame.lines).map lineSize).sum ≤ ((frames.map Frame.told).map Event.size).sum ∧
      ((∃ f ∈ frames, '\n' ∈ f.payload.toList) →
        ((frames.flatMap Frame.lines).map lineSize).sum
          < ((frames.map Frame.told).map Event.size).sum) := by
  induction frames with
  | nil => exact ⟨le_rfl, by simp⟩
  | cons f frames ih =>
    obtain ⟨hle, hlt⟩ := sum_lineSize_lines f
    simp only [List.flatMap_cons, List.map_append, List.sum_append, List.map_cons, List.sum_cons]
    refine ⟨by omega, ?_⟩
    rintro ⟨g, hg, hlf⟩
    rcases List.mem_cons.mp hg with rfl | hg
    · have := hlt hlf
      omega
    · have := ih.2 ⟨g, hg, hlf⟩
      omega

/-- **Frames tell the events that they are meant to tell if and only if every payload is one
line.** -/
theorem ofBytes_encode_iff {frames : List Frame} (h : ∀ f ∈ frames, f.told.IsClean) :
    ofBytes (String.join (frames.map Frame.encode)).toUTF8.data.toList
        = (frames.map Frame.told, true)
      ↔ ∀ f ∈ frames, '\n' ∉ f.payload.toList := by
  rw [ofBytes_encode h]
  constructor
  · intro hread f hf hlf
    -- The rest of a payload behind its first line feed is no data, so too little of it is read.
    have hevents := (Prod.mk.inj hread).1
    have hsize := size_ofLinesFrom {} (frames.flatMap Frame.lines)
    have hlt := (sum_lineSize_frames frames).2 ⟨f, hf, hlf⟩
    have hzero : Event.Draft.size {} = 0 := rfl
    rw [hevents] at hsize
    omega
  · intro hlines
    rw [ofLinesFrom_frames h hlines]
    rfl

end ModelRelay.Sse
