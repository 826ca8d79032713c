import ModelRelay.Claude.Conversion
import Mathlib.Data.List.SplitBy
import Mathlib.Data.List.Forall2

/-!
# The conversation survives its conversion

A request goes to a provider of the Messages protocol with fewer and longer turns than it came with.
Read as a list of blocks, each with who says it, **the conversation is the same before and after**
(`ofChat_conversation`). What changes is how it is cut. The turns that messages contribute fall into
runs of one role, and each run becomes one turn (`IsJoin`), so that the roles alternate;
instructions take no part in it and move to the top.

The cut is stated with `List.splitBy`, which knows nothing of content, and the content with
`Content.toValues`, which knows nothing of roles. Joining two contents has nine cases by their form,
and the one fact that is needed of them is `toValues_append`.

That the turns are the joins of the runs is `foldl_joinTurn`, an induction from the back of the
list: the turn that comes last either lengthens the last run or begins one, and the code decides
between the two as `List.splitBy` does, by the role of the last turn so far. What is said then
follows without another induction over the code, since a join says what its run says and the runs
put together are the turns.

Instructions have two ways to the top. Blocks that a caller of the Messages protocol sends there,
with no instruction among the messages, are passed on as they are (`KeepsBlocks`). In all other
cases the top is one text, of all instructions that are not blank.

How the parts of one message become blocks is not the matter here: `saidBy` takes them as
`Content.ofChat?` gives them, and `Claude.Verbatim` says what becomes of each.
-/

set_option autoImplicit false

namespace ModelRelay.Claude

/-! ## Content -/

namespace Content

/-- **Joining content loses nothing**, whatever forms the two have. -/
theorem toValues_append (a b : Content) : (a.append b).toValues = a.toValues ++ b.toValues := by
  cases a with
  | raw values => rfl
  | text s =>
    cases b with
    | raw values => rfl
    | text t => rfl
    | blocks bs => rfl
  | blocks as =>
    cases b with
    | raw values => rfl
    | text t => exact List.map_append
    | blocks bs => exact List.map_append

end Content

/-! ## Runs of one role

A run is what the specification speaks of, a turn is what the code makes. `IsJoin` relates the two,
and what a run of one turn becomes is part of it, because content that is joined with nothing keeps
its form. -/

/-- The turns are of one role. -/
def sameRole (a b : Turn) : Bool :=
  a.role == b.role

/-- The blocks of a turn, each with who says it. -/
def Turn.said (t : Turn) : List (String × Json) :=
  t.content.toValues.map fun value => (t.role, value)

/-- A turn says all that a run of turns says, under their one role. A run of one turn is left as it
is. -/
structure IsJoin (run : List Turn) (t : Turn) : Prop where
  role : ∀ u ∈ run, u.role = t.role
  values : t.content.toValues = run.flatMap (·.content.toValues)
  alone : ∀ u, run = [u] → t = u

theorem isJoin_singleton (t : Turn) : IsJoin [t] t where
  role _ hu := congrArg _ (List.mem_singleton.mp hu)
  values := (List.flatMap_singleton _ _).symm
  alone _ hu := List.singleton_inj.mp hu

/-- A turn of the same role joins the run. Content is appended, so the values are. -/
theorem IsJoin.concat {run : List Turn} {t next : Turn} (h : IsJoin run t) (hne : run ≠ [])
    (hrole : t.role = next.role) :
    IsJoin (run ++ [next]) { t with content := t.content.append next.content } where
  role u hu := by
    rcases List.mem_append.mp hu with hu | hu
    · exact h.role u hu
    · rw [List.mem_singleton.mp hu]
      exact hrole.symm
  values := by
    rw [Content.toValues_append, h.values, List.flatMap_append, List.flatMap_singleton]
  alone u hu := by
    have hlen := congrArg List.length hu
    rw [List.length_append, List.length_singleton, List.length_singleton] at hlen
    exact absurd (List.eq_nil_of_length_eq_zero (by omega)) hne

theorem IsJoin.said {run : List Turn} {t : Turn} (h : IsJoin run t) :
    t.said = run.flatMap Turn.said := by
  rw [Turn.said, h.values, List.map_flatMap]
  exact List.flatMap_congr fun u hu => by rw [Turn.said, h.role u hu]

/-- A further element that is related to the last one lengthens the last run. -/
theorem splitBy_concat {α : Type} {related : α → α → Bool} {l : List α} {runs : List (List α)}
    {run : List α} {last a : α} (h : l.splitBy related = runs ++ [run ++ [last]])
    (ha : related last a = true) :
    (l ++ [a]).splitBy related = runs ++ [run ++ [last] ++ [a]] := by
  -- `List.splitBy_eq_iff` asks four things of the runs: they make up the list, none is empty,
  -- neighbours within one are related, and neighbours across a cut are not.
  obtain ⟨hl, hne, hchain, hcut⟩ := List.splitBy_eq_iff.mp h
  refine List.splitBy_eq_iff.mpr ⟨?_, ?_, ?_, ?_⟩
  · rw [hl]
    simp
  · simpa using hne
  · intro m hm
    rcases List.mem_append.mp hm with hm | hm
    · exact hchain m (List.mem_append_left _ hm)
    · rw [List.mem_singleton.mp hm]
      have hold := hchain (run ++ [last]) (List.mem_append_right _ (List.mem_singleton_self _))
      refine List.isChain_append.mpr ⟨hold, List.isChain_singleton _, fun x hx y hy => ?_⟩
      rw [List.getLast?_concat, Option.mem_some_iff] at hx
      rw [List.head?_singleton, Option.mem_some_iff] at hy
      rw [← hx, ← hy]
      exact ha
  · rw [List.isChain_append] at hcut ⊢
    refine ⟨hcut.1, List.isChain_singleton _, fun x hx y hy => ?_⟩
    obtain ⟨hx', hy', hr⟩ := hcut.2.2 x hx _ rfl
    rw [List.head?_singleton, Option.mem_some_iff] at hy
    subst hy
    -- The first element of the run is what the run before it ends against.
    refine ⟨hx', by simp, ?_⟩
    rw [List.head_append_of_ne_nil hy']
    exact hr

/-! ## Joining turns

The fold keeps the turns that are done last first, with the one that may still grow at the front. -/

/-- **Each turn that comes out is the join of one run.** `turns` grow at the front, so the runs are
listed last first, too. -/
theorem foldl_joinTurn (turns : List Turn) :
    ∃ runs, turns.splitBy sameRole = runs.reverse ∧
      List.Forall₂ IsJoin runs (turns.foldl joinTurn []) := by
  -- From the back: the fold takes one more turn at the end, and `splitBy` of the longer list is
  -- known from that of the shorter.
  induction turns using List.reverseRecOn with
  | nil => exact ⟨[], rfl, .nil⟩
  | append_singleton turns next ih =>
    obtain ⟨runs, hsplit, hjoins⟩ := ih
    rw [List.foldl_append, List.foldl_cons, List.foldl_nil]
    generalize turns.foldl joinTurn [] = joined at hjoins ⊢
    cases hjoins with
    | nil =>
      refine ⟨[[next]], ?_, .cons (isJoin_singleton next) .nil⟩
      rw [List.splitBy_eq_nil.mp hsplit]
      rfl
    | @cons run last runs before hjoin hrest =>
      have hmem : run ∈ turns.splitBy sameRole := by
        rw [hsplit, List.reverse_cons]
        exact List.mem_append_right _ (List.mem_singleton_self _)
      have hne : run ≠ [] := List.ne_nil_of_mem_splitBy hmem
      rw [List.reverse_cons] at hsplit
      by_cases hrole : last.role = next.role
      · -- The run goes on.
        obtain ⟨init, u, rfl⟩ := (List.eq_nil_or_concat run).resolve_left hne
        rw [List.concat_eq_append] at hjoin hsplit hne
        have hu : sameRole u next = true := by
          rw [sameRole, hjoin.role u (List.mem_append_right _ (List.mem_singleton_self _)), hrole]
          exact beq_self_eq_true _
        refine ⟨(init ++ [u] ++ [next]) :: runs, ?_, ?_⟩
        · rw [List.reverse_cons]
          exact splitBy_concat hsplit hu
        · rw [joinTurn, if_pos hrole]
          exact .cons (hjoin.concat hne hrole) hrest
      · -- A new run begins.
        refine ⟨[next] :: run :: runs, ?_, ?_⟩
        · have hcut : ∀ x ∈ turns.getLast?, sameRole x next = false := by
            intro x hx
            have hturns : turns = runs.reverse.flatten ++ run := by
              rw [← List.flatten_splitBy sameRole turns, hsplit]
              simp
            rw [hturns, List.getLast?_append_of_ne_nil _ hne] at hx
            rw [sameRole, hjoin.role x (List.mem_of_mem_getLast? hx)]
            exact beq_false_of_ne hrole
          rw [List.splitBy_append_cons [] hcut, hsplit,
            List.splitBy_of_isChain (by simp) (List.isChain_singleton next)]
          simp
        · rw [joinTurn, if_neg hrole]
          exact .cons (isJoin_singleton next) (.cons hjoin hrest)

/-- The turns that are sent are the joins of the runs, one for one and in their order. -/
theorem forall₂_joinTurns (turns : List Turn) :
    List.Forall₂ IsJoin (turns.splitBy sameRole) (joinTurns turns) := by
  obtain ⟨runs, hsplit, hjoins⟩ := foldl_joinTurn turns
  rw [hsplit, joinTurns]
  exact List.forall₂_reverse_iff.mpr hjoins

/-- What is joined run by run says what the runs say. -/
theorem said_of_forall₂ {runs : List (List Turn)} {turns : List Turn}
    (h : List.Forall₂ IsJoin runs turns) :
    turns.flatMap Turn.said = runs.flatten.flatMap Turn.said := by
  induction h with
  | nil => rfl
  | cons hjoin _ ih =>
    rw [List.flatMap_cons, List.flatten_cons, List.flatMap_append, hjoin.said, ih]

theorem said_joinTurns (turns : List Turn) :
    (joinTurns turns).flatMap Turn.said = turns.flatMap Turn.said := by
  rw [said_of_forall₂ (forall₂_joinTurns turns), List.flatten_splitBy]

/-- Roles come from the turns that are joined, and neighbours differ. -/
theorem roles_foldl_joinTurn {ok : String → Prop} {turns before : List Turn}
    (hturns : ∀ t ∈ turns, ok t.role) (hbefore : ∀ t ∈ before, ok t.role)
    (hchain : (before.map (·.role)).IsChain (· ≠ ·)) :
    (∀ t ∈ turns.foldl joinTurn before, ok t.role) ∧
      ((turns.foldl joinTurn before).map (·.role)).IsChain (· ≠ ·) := by
  induction turns generalizing before with
  | nil => exact ⟨hbefore, hchain⟩
  | cons next turns ih =>
    have hnext := hturns next List.mem_cons_self
    have hrest : ∀ t ∈ turns, ok t.role := fun t ht => hturns t (List.mem_cons_of_mem _ ht)
    cases before with
    | nil =>
      refine ih hrest (fun t ht => ?_) (List.isChain_singleton _)
      rw [List.mem_singleton.mp ht]
      exact hnext
    | cons last before =>
      rw [List.foldl_cons, joinTurn]
      by_cases hrole : last.role = next.role
      · rw [if_pos hrole]
        refine ih hrest (fun t ht => ?_) hchain
        rcases List.mem_cons.mp ht with rfl | ht
        · exact hbefore last List.mem_cons_self
        · exact hbefore t (List.mem_cons_of_mem _ ht)
      · rw [if_neg hrole]
        refine ih hrest (fun t ht => ?_) ?_
        · rcases List.mem_cons.mp ht with rfl | ht
          · exact hnext
          · exact hbefore t ht
        · exact List.isChain_cons_cons.mpr ⟨fun heq => hrole heq.symm, hchain⟩

/-- Roles that hold of all turns hold of the joined ones, and no two neighbours are of one role. -/
theorem roles_joinTurns (ok : String → Prop) (turns : List Turn) (h : ∀ t ∈ turns, ok t.role) :
    (∀ t ∈ joinTurns turns, ok t.role) ∧ ((joinTurns turns).map (·.role)).IsChain (· ≠ ·) := by
  have hnil : ∀ t ∈ ([] : List Turn), ok t.role := fun _ ht => absurd ht List.not_mem_nil
  obtain ⟨hok, hchain⟩ := roles_foldl_joinTurn h hnil List.isChain_nil
  refine ⟨fun t ht => hok t (List.mem_reverse.mp ht), ?_⟩
  rw [joinTurns, List.map_reverse, List.isChain_reverse]
  exact hchain.imp fun _ _ hne heq => hne heq.symm

/-! ## What messages contribute

A message contributes one turn or none. Pictures are kept for providers that see, and only where the
user or a tool speaks. -/

/-- Content in a role, block by block. -/
def saidIn (role : String) (content : Option Content) : List (String × Json) :=
  (content.map Content.toValues).elim [] fun values => values.map fun value => (role, value)

/-- What a message says in the conversation: nothing if it is an instruction or has no content.
Tools speak for the user. -/
def saidBy (vision : Bool) (m : Chat.Message) : List (String × Json) :=
  match m.role with
  | .system | .developer => []
  | .assistant => saidIn "assistant" (Content.ofChat? false m.content)
  | .user | .tool => saidIn "user" (Content.ofChat? vision m.content)

theorem ofMessage?_eq (vision : Bool) (m : Chat.Message) :
    Turn.ofMessage? vision m
      = (roleOf? m.role).bind fun role =>
          (Content.ofChat? (vision && role == "user") m.content).map (Turn.mk role) := by
  rw [Turn.ofMessage?]
  cases roleOf? m.role with
  | none => rfl
  | some role => cases h : Content.ofChat? (vision && role == "user") m.content <;> simp [h]

theorem said_ofMessage? (vision : Bool) (m : Chat.Message) :
    (Turn.ofMessage? vision m).toList.flatMap Turn.said = saidBy vision m := by
  have hsaid : ∀ role (content : Option Content),
      (content.map (Turn.mk role)).toList.flatMap Turn.said = saidIn role content := by
    intro role content
    cases content with
    | none => rfl
    | some content => exact List.flatMap_singleton _ _
  rw [saidBy, ofMessage?_eq]
  cases m.role with
  | system | developer => rfl
  | assistant =>
    rw [roleOf?, Option.bind_some, hsaid]
    exact congrArg _ (by rw [show (vision && "assistant" == "user") = false by simp])
  | user | tool =>
    rw [roleOf?, Option.bind_some, hsaid]
    exact congrArg _ (by rw [show (vision && "user" == "user") = vision by simp])

theorem role_ofMessage? {vision : Bool} {m : Chat.Message} {t : Turn}
    (h : Turn.ofMessage? vision m = some t) : t.role = "user" ∨ t.role = "assistant" := by
  rw [ofMessage?_eq] at h
  obtain ⟨role, hrole, hcontent⟩ := Option.bind_eq_some_iff.mp h
  obtain ⟨content, -, rfl⟩ := Option.map_eq_some_iff.mp hcontent
  cases hm : m.role with
  | system | developer => exact absurd hrole (by simp [hm, roleOf?])
  | assistant => exact Or.inr (Option.some.inj (by rw [← hrole, hm]; rfl))
  | user | tool => exact Or.inl (Option.some.inj (by rw [← hrole, hm]; rfl))

/-- Instructions contribute no turn, so leaving them out changes none. -/
theorem filterMap_ofMessage? (vision : Bool) (messages : List Chat.Message) :
    messages.filterMap (Turn.ofMessage? vision)
      = (messages.filter (!·.role.isInstruction)).filterMap (Turn.ofMessage? vision) := by
  rw [List.filterMap_filter]
  refine List.filterMap_congr fun m _ => ?_
  rw [ofMessage?_eq]
  cases m.role <;> rfl

/-! ## Instructions

Their texts are taken from the top first and then from the messages, and blank ones are dropped,
wherever they stand. -/

/-- The texts of all instructions that are not blank, those at the top first. -/
def spokenInstructions (r : Chat.Request) : List String :=
  ((r.system.map (·.joinedText)).toList ++
    r.messages.flatMap fun m =>
      match m.role with
      | .system | .developer => [m.content.joinedText]
      | .user | .assistant | .tool => []).filter fun s => !Text.isBlankText s

/-- The blocks at the top are passed on as they are: the caller speaks the protocol, and no turn
adds to them. -/
def KeepsBlocks (r : Chat.Request) (protocol : Protocol) : Prop :=
  protocol = .messages ∧ (∃ blocks, r.system = some (.blocks blocks)) ∧
    ∀ m ∈ r.messages, m.role ≠ .system ∧ m.role ≠ .developer

/-- The code collects the texts through a filter on the messages; those that are not blank are the
spoken ones. -/
theorem filter_instructions (r : Chat.Request) :
    (instructions r).filter (fun s => !Text.isBlankText s) = spokenInstructions r := by
  rw [instructions, spokenInstructions]
  congr 2
  induction r.messages with
  | nil => rfl
  | cons m rest ih =>
    rw [List.flatMap_cons, ← ih, List.filter_cons]
    cases m.role <;> rfl

theorem any_isInstruction (messages : List Chat.Message) :
    messages.any (·.role.isInstruction) = false
      ↔ ∀ m ∈ messages, m.role ≠ .system ∧ m.role ≠ .developer := by
  rw [List.any_eq_false]
  refine forall₂_congr fun m _ => ?_
  cases m.role <;> simp [Chat.Role.isInstruction]

theorem systemOf_keeps {r : Chat.Request} {protocol : Protocol} (h : KeepsBlocks r protocol) :
    systemOf (protocol == .messages) r = r.system := by
  obtain ⟨rfl, ⟨blocks, hblocks⟩, hmessages⟩ := h
  rw [systemOf, hblocks, (any_isInstruction r.messages).mpr hmessages]
  rfl

/-- No instruction is spoken and there is none at the top, or all of them are one text. -/
theorem joinedInstructions_eq (r : Chat.Request) :
    joinedInstructions r
      = if spokenInstructions r = [] then none
        else some (.text (Chat.joinLines (spokenInstructions r))) := by
  rw [joinedInstructions, filter_instructions]
  cases spokenInstructions r with
  | nil => rfl
  | cons s rest => rw [if_neg (List.cons_ne_nil s rest)]

theorem systemOf_joins {r : Chat.Request} {protocol : Protocol} (h : ¬ KeepsBlocks r protocol) :
    systemOf (protocol == .messages) r
      = if spokenInstructions r = [] then none
        else some (.text (Chat.joinLines (spokenInstructions r))) := by
  rw [← joinedInstructions_eq, systemOf]
  cases hsystem : r.system with
  | none => rfl
  | some prompt =>
    cases prompt with
    | text s => rfl
    | blocks blocks =>
      refine if_neg fun hkeeps => h ?_
      rw [Bool.and_eq_true, Bool.not_eq_true', beq_iff_eq] at hkeeps
      exact ⟨hkeeps.1, ⟨blocks, hsystem⟩, (any_isInstruction r.messages).mp hkeeps.2⟩

/-! ## The request as a whole -/

/-- **A conversation is converted without losing, repeating, moving or misattributing a block**, in
as few turns as there are runs of one role; the instructions are in `system`, and nowhere else.

Turns are cut into runs by their roles and joined by their content, and neither looks at the other.
Blocks are the same before and after because joining appends them; roles alternate because two runs
side by side differ in theirs. -/
theorem ofChat_conversation (r : Chat.Request) (vision : Bool) (protocol : Protocol) :
    let out := Request.ofChat r vision protocol
    -- The roles alternate.
    ((∀ t ∈ out.turns, t.role = "user" ∨ t.role = "assistant") ∧
      (out.turns.map (·.role)).IsChain (· ≠ ·)) ∧
    -- What is said, and by whom, is what was said.
    out.turns.flatMap Turn.said = r.messages.flatMap (saidBy vision) ∧
    -- There is one turn for each run.
    List.Forall₂ IsJoin ((r.messages.filterMap (Turn.ofMessage? vision)).splitBy sameRole)
      out.turns ∧
    -- Instructions change nothing but `system`, which holds their texts in order.
    (∀ messages : List Chat.Message,
      messages.filter (!·.role.isInstruction) = r.messages.filter (!·.role.isInstruction) →
        { Request.ofChat { r with messages } vision protocol with system := out.system } = out) ∧
    (KeepsBlocks r protocol → out.system = r.system) ∧
    (¬ KeepsBlocks r protocol →
      out.system = if spokenInstructions r = [] then none
        else some (.text (Chat.joinLines (spokenInstructions r)))) := by
  intro out
  refine ⟨?_, ?_, forall₂_joinTurns _, ?_, systemOf_keeps, systemOf_joins⟩
  · refine roles_joinTurns (fun role => role = "user" ∨ role = "assistant") _ fun t ht => ?_
    obtain ⟨m, -, hm⟩ := List.mem_filterMap.mp ht
    exact role_ofMessage? hm
  · show (joinTurns _).flatMap _ = _
    rw [said_joinTurns, List.filterMap_eq_flatMap_toList, List.flatMap_assoc]
    exact List.flatMap_congr fun m _ => said_ofMessage? vision m
  · -- Lists of messages that differ in instructions only give the same turns, and no other field is
    -- made from the messages.
    intro messages hsame
    have hturns : messages.filterMap (Turn.ofMessage? vision)
        = r.messages.filterMap (Turn.ofMessage? vision) := by
      rw [filterMap_ofMessage?, hsame, ← filterMap_ofMessage?]
    show ({ Request.ofChat r vision protocol with
      turns := joinTurns (messages.filterMap (Turn.ofMessage? vision)) } : Request) = _
    rw [hturns]
    rfl

/-- Two turns of the user become one, for what stands between them is a turn without content. The
instructions among the messages come behind what stands at the top, in their order, and a blank one
does not come at all. -/
theorem conversation_of_two_rules :
    let rules : List Chat.Message :=
      [⟨.system, .text "be brief", none, []⟩, ⟨.system, .text " ", none, []⟩,
       ⟨.developer, .text "be kind", none, []⟩]
    let talk : List Chat.Message :=
      [⟨.user, .text "hi", none, []⟩, ⟨.assistant, .null, none, []⟩, ⟨.tool, .text "42", none, []⟩]
    let r : Chat.Request :=
      { model := "claude-2.1", system := some (.text "be honest"), messages := rules ++ talk }
    let out := Request.ofChat r false .completions
    out.turns = [⟨"user", .blocks [.text "hi", .text "42"]⟩] ∧
      out.system = some (.text "be honest\nbe brief\nbe kind") ∧
      { Request.ofChat { r with messages := talk } false .completions with system := out.system }
        = out := by
  intro rules talk r out
  obtain ⟨-, -, -, hother, -, hsystem⟩ := ofChat_conversation r false .completions
  refine ⟨rfl, ?_, hother talk rfl⟩
  rw [hsystem fun hkeeps => absurd hkeeps.1 (by decide)]
  rfl

end ModelRelay.Claude
