import ModelRelay.Delivery.Courier

/-!
# What a stream comes to

A courier is a machine, and what it does depends on who else moves. What a stream *comes to* does
not: it is a function of the items alone. `script` gives the frames of a list of items and `verdict`
the result, both by recursion on the items up to the first that ends the stream.

**Every body that ends has a first decisive item** (`exists_decisive`): all before it is heard, and
there the script and the verdict are read off what was told. That neither the courier nor the
schedule changes them is the matter of the files that follow.

`Hears` relates a list of items to what it means to a decoder, and is where every other property of
streams begins. It stops in front of the decisive item, so that what is heard can be put together
piece by piece; and as it says in which state the decoder is left, what comes next is decided by one
step of the decoder from there.

Nothing is asked of a decoder. `echo`, the simplest one, is there for examples.
-/

set_option autoImplicit false

namespace ModelRelay.Delivery

open Sse

namespace EventDecoder

variable (d : EventDecoder)

/-- The failure that an item is to a decoder in a state. -/
def failure? (s : d.State) : Item → Option RelayError
  | .event e =>
    match d.decode s e with
    | .ok _ => none
    | .error fault => some fault
  | .broken detail => some (.stream (.interrupted d.provider detail))
  | .finished => some (.stream (.unfinished d.provider))

/-- `d.Hears s items told s'`: from state `s` to state `s'` the decoder understands every item,
none of them is the end signal, and `told` is what they mean. -/
inductive Hears : d.State → List Item → List Decoded → d.State → Prop where
  | nil (s : d.State) : Hears s [] [] s
  | cons {s s' s'' : d.State} {e : Event} {x : Decoded} {rest : List Item} {told : List Decoded} :
      d.decode s e = .ok (s', x) → x.finished = false → Hears s' rest told s'' →
      Hears s (.event e :: rest) (x :: told) s''

/-- The frames that items come to for a caller who reads them all. -/
def script (native : Bool) (s : d.State) : List Item → List Frame
  | [] => []
  | .event e :: rest =>
    match d.decode s e with
    | .ok (s', x) =>
      if x.finished then x.frames ++ d.closing s' else x.frames ++ script native s' rest
    | .error fault => [Frame.ofError native fault]
  | .broken detail :: _ => [Frame.ofError native (.stream (.interrupted d.provider detail))]
  | .finished :: _ => [Frame.ofError native (.stream (.unfinished d.provider))]

/-- The result that items come to, if one of them ends the stream. `text` and `usage` are what was
told before. -/
def verdict (promptTokens : UInt32) (s : d.State) (text : String) (usage : Chat.PartialUsage) :
    List Item → Option (Except RelayError Outcome)
  | [] => none
  | .event e :: rest =>
    match d.decode s e with
    | .ok (s', x) =>
      let text := text ++ x.text
      let usage := usage.merge x.usage
      if x.finished then
        some (.ok { text, usage := Chat.Usage.finalize usage promptTokens text })
      else verdict promptTokens s' text usage rest
    | .error fault => some (.error fault)
  | .broken detail :: _ => some (.error (.stream (.interrupted d.provider detail)))
  | .finished :: _ => some (.error (.stream (.unfinished d.provider)))

end EventDecoder

/-! ## The items that are only heard

What was told is a list of what the events meant. Texts are put together, and of the counts the last
report stands. -/

/-- The text of what was told, in order. -/
def toldText (told : List Decoded) : String :=
  String.join (told.map (·.text))

/-- The counts of what was told, the newer over the older. -/
def toldUsage (usage : Chat.PartialUsage) (told : List Decoded) : Chat.PartialUsage :=
  told.foldl (fun u x => u.merge x.usage) usage

/-- The last report of a count among what was told. -/
def lastReported (count : Chat.PartialUsage → Option UInt32) (told : List Decoded) :
    Option UInt32 :=
  (told.filterMap fun x => count x.usage).getLast?

theorem toldText_nil : toldText [] = "" := rfl

theorem toldText_append (told told' : List Decoded) :
    toldText (told ++ told') = toldText told ++ toldText told' := by
  rw [toldText, List.map_append, String.join_append, toldText, toldText]

theorem toldText_concat (told : List Decoded) (x : Decoded) :
    toldText (told ++ [x]) = toldText told ++ x.text := by
  rw [toldText_append]
  exact congrArg (toldText told ++ ·) (String.join_cons.trans String.append_empty)

theorem toldText_cons (x : Decoded) (told : List Decoded) :
    toldText (x :: told) = x.text ++ toldText told := by
  rw [toldText, List.map_cons, String.join_cons, toldText]

theorem toldUsage_append (usage : Chat.PartialUsage) (told told' : List Decoded) :
    toldUsage usage (told ++ told') = toldUsage (toldUsage usage told) told' := by
  rw [toldUsage, List.foldl_append, toldUsage, toldUsage]

theorem toldUsage_concat (usage : Chat.PartialUsage) (told : List Decoded) (x : Decoded) :
    toldUsage usage (told ++ [x]) = (toldUsage usage told).merge x.usage := by
  rw [toldUsage_append]
  rfl

/-- A report of a count stands until a newer one comes. Stated over the counts before, which the
first report replaces, and for either count: all it takes is that merging prefers the newer. -/
theorem count_toldUsage (count : Chat.PartialUsage → Option UInt32)
    (hm : ∀ u v : Chat.PartialUsage, count (u.merge v) = (count v).or (count u))
    (told : List Decoded) (usage : Chat.PartialUsage) :
    count (toldUsage usage told) = (lastReported count told).or (count usage) := by
  induction told generalizing usage with
  | nil => rfl
  | cons x rest ih =>
    have hstep : count (toldUsage usage (x :: rest))
        = (lastReported count rest).or ((count x.usage).or (count usage)) := by
      rw [toldUsage, List.foldl_cons, ← toldUsage, ih, hm]
    rw [hstep, ← Option.or_assoc]
    congr 1
    unfold lastReported
    cases h : count x.usage with
    | none => rw [List.filterMap_cons_none (by exact h), Option.or_none]
    | some n =>
      rw [List.filterMap_cons_some (by exact h), List.getLast?_cons]
      cases (rest.filterMap fun x => count x.usage).getLast? <;> rfl

/-! ## Scripts and verdicts, read off what was heard

One lemma for each way in which an item may go: it is heard, it is the end signal, or it is a
failure. The recursions are unfolded here and nowhere else. -/

namespace EventDecoder

variable {d : EventDecoder} {s s' : d.State} {before : List Item} {told : List Decoded}

theorem Hears.append {after : List Item} {told' : List Decoded} {s'' : d.State}
    (h : d.Hears s before told s') (h' : d.Hears s' after told' s'') :
    d.Hears s (before ++ after) (told ++ told') s'' := by
  induction h with
  | nil s => exact h'
  | cons hdec hfin _ ih => exact .cons hdec hfin (ih h')

theorem script_of_hears {native : Bool} (h : d.Hears s before told s') (rest : List Item) :
    d.script native s (before ++ rest)
      = told.flatMap (·.frames) ++ d.script native s' rest := by
  induction h with
  | nil s => rfl
  | cons hdec hfin _ ih =>
    rw [List.cons_append, script, hdec]
    simp only [hfin, Bool.false_eq_true, if_false, List.flatMap_cons, List.append_assoc]
    rw [ih]

theorem verdict_of_hears {promptTokens : UInt32} (h : d.Hears s before told s') (text : String)
    (usage : Chat.PartialUsage) (rest : List Item) :
    d.verdict promptTokens s text usage (before ++ rest)
      = d.verdict promptTokens s' (text ++ toldText told) (toldUsage usage told) rest := by
  induction h generalizing text usage with
  | nil s => rw [toldText_nil, String.append_empty]; rfl
  | cons hdec hfin _ ih =>
    rw [List.cons_append, verdict, hdec]
    simp only [hfin, Bool.false_eq_true, if_false]
    rw [ih, toldText_cons, String.append_assoc]
    rfl

theorem script_of_failure? {native : Bool} {item : Item} {fault : RelayError}
    (h : d.failure? s item = some fault) (rest : List Item) :
    d.script native s (item :: rest) = [Frame.ofError native fault] := by
  cases item with
  | event e =>
    rw [failure?] at h
    rw [script]
    cases hdec : d.decode s e with
    | ok r => rw [hdec] at h; exact absurd h (by simp)
    | error fault' => rw [hdec] at h; rw [Option.some.inj h]
  | broken detail => rw [script, Option.some.inj h]
  | finished => rw [script, Option.some.inj h]

theorem verdict_of_failure? {promptTokens : UInt32} {text : String} {usage : Chat.PartialUsage}
    {item : Item} {fault : RelayError} (h : d.failure? s item = some fault) (rest : List Item) :
    d.verdict promptTokens s text usage (item :: rest) = some (.error fault) := by
  cases item with
  | event e =>
    rw [failure?] at h
    rw [verdict]
    cases hdec : d.decode s e with
    | ok r => rw [hdec] at h; exact absurd h (by simp)
    | error fault' => rw [hdec] at h; rw [Option.some.inj h]
  | broken detail => rw [verdict, Option.some.inj h]
  | finished => rw [verdict, Option.some.inj h]

theorem script_of_end {native : Bool} {e : Event} {x : Decoded} (hdec : d.decode s e = .ok (s', x))
    (hfin : x.finished = true) (rest : List Item) :
    d.script native s (.event e :: rest) = x.frames ++ d.closing s' := by
  rw [script, hdec]
  simp only [hfin, if_true]

theorem verdict_of_end {promptTokens : UInt32} {text : String} {usage : Chat.PartialUsage}
    {e : Event} {x : Decoded} (hdec : d.decode s e = .ok (s', x)) (hfin : x.finished = true)
    (rest : List Item) :
    d.verdict promptTokens s text usage (.event e :: rest)
      = some (.ok
          { text := text ++ x.text
            usage :=
              Chat.Usage.finalize (usage.merge x.usage) promptTokens (text ++ x.text) }) := by
  rw [verdict, hdec]
  simp only [hfin, if_true]

/-- An item ends the stream: it is the end signal or a failure. -/
def Decisive (s : d.State) (item : Item) : Prop :=
  (∃ e s' x, item = .event e ∧ d.decode s e = .ok (s', x) ∧ x.finished = true) ∨
    ∃ fault, d.failure? s item = some fault

theorem verdict_of_decisive {promptTokens : UInt32} {text : String} {usage : Chat.PartialUsage}
    {item : Item} (h : Decisive s item) (rest : List Item) :
    ∃ r, d.verdict promptTokens s text usage (item :: rest) = some r := by
  rcases h with ⟨e, s', x, rfl, hdec, hfin⟩ | ⟨fault, hf⟩
  · exact ⟨_, verdict_of_end hdec hfin rest⟩
  · exact ⟨_, verdict_of_failure? hf rest⟩

/-- Items are either all heard, or there is a first that ends the stream. -/
theorem hears_or_decisive (s : d.State) (items : List Item) :
    (∃ told s', d.Hears s items told s') ∨
      ∃ before item after told s', items = before ++ item :: after ∧ d.Hears s before told s' ∧
        Decisive s' item := by
  induction items generalizing s with
  | nil => exact Or.inl ⟨[], s, .nil s⟩
  | cons item rest ih =>
    -- The first item decides, unless it is an event that is understood and no end signal.
    cases item with
    | broken detail => exact Or.inr ⟨[], _, rest, [], s, rfl, .nil s, Or.inr ⟨_, rfl⟩⟩
    | finished => exact Or.inr ⟨[], _, rest, [], s, rfl, .nil s, Or.inr ⟨_, rfl⟩⟩
    | event e =>
      cases hdec : d.decode s e with
      | error fault =>
        refine Or.inr ⟨[], _, rest, [], s, rfl, .nil s, Or.inr ⟨fault, ?_⟩⟩
        rw [failure?, hdec]
      | ok r =>
        obtain ⟨s₁, x⟩ := r
        cases hfin : x.finished with
        | true =>
          exact Or.inr ⟨[], _, rest, [], s, rfl, .nil s, Or.inl ⟨e, s₁, x, rfl, hdec, hfin⟩⟩
        | false =>
          rcases ih s₁ with ⟨told, s₂, hears⟩ | ⟨before, item, after, told, s₂, rfl, hears, hd⟩
          · exact Or.inl ⟨x :: told, s₂, .cons hdec hfin hears⟩
          · exact Or.inr ⟨.event e :: before, item, after, x :: told, s₂, rfl,
              .cons hdec hfin hears, hd⟩

/-- **Items that come to a result have a first that ends the stream**, and the frames and the result
are those of what was told before it and of how it ends. -/
theorem exists_end_of_verdict {promptTokens : UInt32} {text : String} {usage : Chat.PartialUsage}
    {items : List Item} {result : Except RelayError Outcome}
    (h : d.verdict promptTokens s text usage items = some result) (native : Bool) :
    ∃ before item rest told s', items = before ++ item :: rest ∧ d.Hears s before told s' ∧
      ((∃ e s'' x, item = .event e ∧ d.decode s' e = .ok (s'', x) ∧ x.finished = true ∧
          d.script native s items = told.flatMap (·.frames) ++ (x.frames ++ d.closing s'') ∧
          result = .ok
            { text := text ++ toldText told ++ x.text
              usage := Chat.Usage.finalize ((toldUsage usage told).merge x.usage) promptTokens
                (text ++ toldText told ++ x.text) }) ∨
        ∃ fault, d.failure? s' item = some fault ∧
          d.script native s items = told.flatMap (·.frames) ++ [Frame.ofError native fault] ∧
          result = .error fault) := by
  rcases hears_or_decisive s items with
    ⟨told, s', hears⟩ | ⟨before, item, rest, told, s', rfl, hears, hdecisive⟩
  · rw [← List.append_nil items, verdict_of_hears hears] at h
    nomatch h
  · rw [verdict_of_hears hears] at h
    refine ⟨before, item, rest, told, s', rfl, hears, ?_⟩
    rw [script_of_hears hears]
    rcases hdecisive with ⟨e, s'', x, rfl, hdec, hfin⟩ | ⟨fault, hfault⟩
    · rw [verdict_of_end hdec hfin] at h
      rw [script_of_end hdec hfin]
      exact Or.inl ⟨e, s'', x, rfl, hdec, hfin, rfl, (Option.some.inj h).symm⟩
    · rw [verdict_of_failure? hfault] at h
      rw [script_of_failure? hfault]
      exact Or.inr ⟨fault, hfault, rfl, (Option.some.inj h).symm⟩

/-- Items that come to a failure end with the frame that tells of it. -/
theorem script_of_verdict {native : Bool} {promptTokens : UInt32} {text : String}
    {usage : Chat.PartialUsage} {items : List Item} {fault : RelayError}
    (h : d.verdict promptTokens s text usage items = some (.error fault)) :
    ∃ frames, d.script native s items = frames ++ [Frame.ofError native fault] := by
  obtain ⟨before, item, rest, told, s', -, -, hend⟩ := exists_end_of_verdict h native
  rcases hend with ⟨_, _, _, -, -, -, -, hok⟩ | ⟨fault', -, hscript, hfault⟩
  · nomatch hok
  · rw [Except.error.inj hfault]
    exact ⟨_, hscript⟩

/-- The end of the body is never heard. -/
theorem Hears.finished_notMem (h : d.Hears s before told s') : Item.finished ∉ before := by
  induction h with
  | nil s => exact List.not_mem_nil
  | cons _ _ _ ih =>
    intro hm
    rcases List.mem_cons.mp hm with heq | hm
    · exact Item.noConfusion heq
    · exact ih hm

/-- **Every body that ends has a first decisive item.** -/
theorem exists_decisive (s : d.State) (items : List Item) :
    ∃ before item after told s', items ++ [.finished] = before ++ item :: after ∧
      d.Hears s before told s' ∧ Decisive s' item := by
  rcases hears_or_decisive s (items ++ [.finished]) with ⟨told, s', hears⟩ | h
  · exact absurd (List.mem_append_right items (List.mem_singleton_self _)) hears.finished_notMem
  · exact h

/-- The frames that items which are not only heard come to: those of the end signal, or the one that
tells of a failure. Where there are no more items there is no end. -/
inductive EndsWith (native : Bool) (s : d.State) : List Item → List Frame → Prop where
  | silent : EndsWith native s [] []
  | finished {e : Event} {s' : d.State} {x : Decoded} {rest : List Item}
      (decoded : d.decode s e = .ok (s', x)) (last : x.finished = true) :
      EndsWith native s (.event e :: rest) (x.frames ++ d.closing s')
  | failed {item : Item} {fault : RelayError} {rest : List Item}
      (failed : d.failure? s item = some fault) :
      EndsWith native s (item :: rest) [Frame.ofError native fault]

/-- The frames of any items are what was heard, and an end. -/
theorem exists_endsWith (native : Bool) (s : d.State) (items : List Item) :
    ∃ before after told s' last, items = before ++ after ∧ d.Hears s before told s' ∧
      EndsWith native s' after last ∧
      d.script native s items = told.flatMap (·.frames) ++ last := by
  rcases hears_or_decisive s items with
    ⟨told, s', hears⟩ | ⟨before, item, after, told, s', rfl, hears, hdecisive⟩
  · refine ⟨items, [], told, s', [], (List.append_nil _).symm, hears, .silent, ?_⟩
    have hscript : d.script native s (items ++ []) = _ := script_of_hears hears []
    rwa [List.append_nil] at hscript
  · rcases hdecisive with ⟨e, s'', x, rfl, hdec, hfin⟩ | ⟨fault, hfault⟩
    · refine ⟨before, .event e :: after, told, s', _, rfl, hears, .finished hdec hfin, ?_⟩
      rw [script_of_hears hears, script_of_end hdec hfin]
    · refine ⟨before, item :: after, told, s', _, rfl, hears, .failed hfault, ?_⟩
      rw [script_of_hears hears, script_of_failure? hfault]

/-- The simplest decoder: it passes on what it is told, and the event `end` ends the stream. -/
def echo : EventDecoder where
  State := Unit
  provider := "echo"
  start := ()
  decode _ e :=
    if e.name = "end" then .ok ((), { frames := [.done], finished := true })
    else .ok ((), { frames := [.data e.data], text := e.data })
  closing _ := []

end EventDecoder

end ModelRelay.Delivery
