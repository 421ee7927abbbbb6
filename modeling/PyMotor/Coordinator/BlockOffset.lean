import PyMotor.Lib.Spans

/-!
# Where an edit starts and ends

An agent may ask to offload, prefetch or evict the cache of some of the messages or tools of its
request. The edit names them by their indices, and the engine wants token positions, counted in blocks
of the paged cache (`coordinator/domain/agent_hint.py`, `coordinator/domain/block_offset_translator.py`).
Two tables say where they are in the rendered request: one has the end of every message, the other one
the start of every tool and the end of the last one.

The indices are validated before, against the same lists. The translation clamps them once more, and
takes a start behind the last message back to the last message: such an edit addresses nothing, but
covers the tokens of the last message (`computeEditBlockOffset_covers_iff`).
-/

namespace PyMotor.Coordinator

variable {M T : Type} {messages : List M} {tools : List T}

inductive EditType where
  | offload
  | prefetch
  | evict
  deriving DecidableEq, Repr

inductive EditTarget where
  | session
  | messages
  | tools
  deriving DecidableEq, Repr

structure ContextEdit where
  type : EditType
  start : Option ℤ
  /-- `end` in the source; the edit stops before it. -/
  stop : Option ℤ
  target : EditTarget
  deriving DecidableEq, Repr

namespace ContextEdit

/-- How many messages or tools there are. -/
def bound (edit : ContextEdit) (messages : Option (List M)) (tools : Option (List T)) : Option ℕ :=
  match edit.target, tools with
  | .tools, some tools => some tools.length
  | _, _ => messages.map List.length

def validateEditIndices (edit : ContextEdit) (messages : Option (List M)) (tools : Option (List T)) :
    Bool :=
  edit.start.all (fun start => decide (0 ≤ start)) &&
  edit.stop.all (fun stop => decide (0 ≤ stop)) &&
  (edit.bound messages tools).all (fun bound =>
    edit.start.all (fun start => decide (start ≤ bound)) &&
    edit.stop.all (fun stop => decide (stop ≤ bound))) &&
  edit.start.all (fun start => edit.stop.all fun stop => decide (start < stop))

end ContextEdit

/-! ## Positions in the cache -/

/-- A token, and its block and its place in there. -/
structure BlockOffset where
  block : ℤ
  intraBlock : ℤ
  token : ℤ
  deriving DecidableEq, Repr

/-- The tools branch passes the type of the edit, which is none of the policies. -/
inductive AlignPolicy where
  | negative
  | positive
  | editType (type : EditType)
  deriving DecidableEq, Repr

inductive Boundary where
  | start
  /-- `end` in the source. -/
  | stop
  deriving DecidableEq, Repr

/-- The block for a token; only the negative policy keeps to full blocks. -/
def alignBlockForOp (tokenIdx blockSize : ℤ) (alignPolicy : AlignPolicy) (boundary : Boundary) : ℤ :=
  if blockSize ≤ 0 then 0
  else
    let block := tokenIdx / blockSize
    let intra := tokenIdx % blockSize
    match alignPolicy, boundary with
    | .negative, .start => max 0 (block + if intra ≠ 0 then 1 else 0)
    | .negative, .stop => max 0 (block - if intra ≠ blockSize - 1 then 1 else 0)
    | .positive, _ => block
    | .editType _, _ => block

/-- The end of a message. -/
def prefixDiffBlockOffset (messages : List M) (msgIdx blockSize : ℤ) (messagesTable : Option (List ℤ)) :
    Option BlockOffset :=
  if messages.isEmpty then none
  else if msgIdx < 0 ∨ (messages.length : ℤ) ≤ msgIdx then none
  else do
    let table ← messagesTable
    let tokenIdx ← table[msgIdx.toNat]?
    if tokenIdx ≤ 0 then none
    else some ⟨tokenIdx / blockSize, tokenIdx % blockSize, tokenIdx⟩

/-- The end of a message, with its block aligned. -/
def offsetComputer (alignPolicy : AlignPolicy) (messages : List M) (msgIdx blockSize : ℤ)
    (boundary : Boundary) (messagesTable : Option (List ℤ)) : Option BlockOffset :=
  (prefixDiffBlockOffset messages msgIdx blockSize messagesTable).map fun bo =>
    ⟨alignBlockForOp bo.token blockSize alignPolicy boundary, bo.intraBlock, bo.token⟩

def offloadOffsetComputer :
    List M → ℤ → ℤ → Boundary → Option (List ℤ) → Option BlockOffset := offsetComputer .positive

def prefetchOffsetComputer :
    List M → ℤ → ℤ → Boundary → Option (List ℤ) → Option BlockOffset := offsetComputer .positive

def evictOffsetComputer :
    List M → ℤ → ℤ → Boundary → Option (List ℤ) → Option BlockOffset := offsetComputer .positive

/-- Each type of edit has a registered computer. -/
def EditType.offsetComputer :
    EditType → List M → ℤ → ℤ → Boundary → Option (List ℤ) → Option BlockOffset
  | .offload => offloadOffsetComputer
  | .prefetch => prefetchOffsetComputer
  | .evict => evictOffsetComputer

/-! ## The translation -/

/-- The branch for tools. Entry `i` of the table is where tool `i` starts, and the last one is where
the tools end. -/
def toolsBlockOffset (editType : EditType) (count : ℕ) (start stop : Option ℤ) (blockSize : ℤ)
    (table : List ℤ) : Option BlockOffset × Option BlockOffset :=
  let effStart := start.elim 0 fun start => max 0 (min start count)
  let effEnd := stop.elim (count : ℤ) fun stop => max 0 (min stop count)
  let ts := (table[effStart.toNat]?).getD 0
  let boStart : BlockOffset :=
    if effStart = 0 then ⟨ts / blockSize, ts % blockSize, ts⟩
    else ⟨alignBlockForOp ts blockSize (.editType editType) .start, ts % blockSize, ts⟩
  let te := (table[effEnd.toNat]?).getD 0
  let boEnd : BlockOffset :=
    ⟨alignBlockForOp te blockSize (.editType editType) .stop, te % blockSize, te⟩
  if effStart = effEnd then (some boStart, none) else (some boStart, some boEnd)

/-- The branch for messages: both ends are looked up one entry before the index. -/
def messagesBlockOffset (editType : EditType) (messages : List M) (start stop : Option ℤ)
    (blockSize : ℤ) (messagesTable : Option (List ℤ)) : Option BlockOffset × Option BlockOffset :=
  let n : ℤ := messages.length
  if n = 0 then (none, none)
  else
    let effStart := start.elim 0 fun start => max 0 (min start (n - 1))
    let effEnd := stop.elim n fun stop => max 0 (min stop n)
    let boStart :=
      if effStart = 0 then some ⟨0, 0, 0⟩
      else editType.offsetComputer messages (effStart - 1) blockSize .start messagesTable
    (boStart, editType.offsetComputer messages (effEnd - 1) blockSize .stop messagesTable)

def computeEditBlockOffset (editType : EditType) (messages : List M) (tools : Option (List T))
    (start stop : Option ℤ) (blockSize : ℤ) (target : EditTarget)
    (messagesTable toolsTable : Option (List ℤ)) :
    Option (Option BlockOffset × Option BlockOffset) :=
  if blockSize ≤ 0 then none
  else
    match target with
    | .session => some (none, none)
    | .tools =>
      match tools, toolsTable with
      | some tools, some table =>
        if !tools.isEmpty && decide (table.length = tools.length + 1) then
          some (toolsBlockOffset editType tools.length start stop blockSize table)
        else some (none, none)
      | _, _ => some (none, none)
    | .messages => some (messagesBlockOffset editType messages start stop blockSize messagesTable)

/-! ## What an edit is about -/

/-- The ends of the messages: as many as there are, ascending and positive. -/
structure IsMessagesTable (count : ℕ) (table : List ℤ) : Prop where
  length : table.length = count
  ascending : table.Pairwise (· ≤ ·)
  positive : ∀ t ∈ table, 0 < t

/-- The starts of the tools and the end of the last one, ascending. -/
structure IsToolsTable (count : ℕ) (table : List ℤ) : Prop where
  length : table.length = count + 1
  ascending : table.Pairwise (· ≤ ·)

namespace ContextEdit

/-- The indices that the edit addresses; a missing start is the first one, and a missing end is behind
the last one. -/
def addressed (edit : ContextEdit) (count : ℕ) : Set ℕ :=
  {i | edit.start.getD 0 ≤ i ∧ (i : ℤ) < edit.stop.getD count}

/-- The messages begin where the prompt begins. -/
def marks (edit : ContextEdit) (messagesTable toolsTable : List ℤ) : List ℤ :=
  match edit.target with
  | .tools => toolsTable
  | _ => 0 :: messagesTable

def count (edit : ContextEdit) (messages : List M) (tools : List T) : ℕ :=
  match edit.target with
  | .tools => tools.length
  | _ => messages.length

/-- The edit starts behind the last message and has no end, and the last message has tokens. -/
def StartsPastEnd (edit : ContextEdit) (messages : List M) (messagesTable : List ℤ) : Prop :=
  edit.target = .messages ∧ edit.stop = none ∧ ∃ last : ℕ, messages.length = last + 1 ∧
    edit.start = some (messages.length : ℤ) ∧ (span (0 :: messagesTable) last).Nonempty

end ContextEdit

/-- The coordinates are those of the token. -/
structure BlockOffset.Recombines (blockSize : ℤ) (bo : BlockOffset) : Prop where
  token : bo.block * blockSize + bo.intraBlock = bo.token
  nonneg : 0 ≤ bo.intraBlock
  lt : bo.intraBlock < blockSize

/-- From the start up to the end it is exactly the tokens of what is addressed; the end may be missing
only if nothing is. -/
structure IsTranslation (blockSize : ℤ) (addressed : Set ℕ) (marks : List ℤ)
    (bo : Option BlockOffset × Option BlockOffset) : Prop where
  exact : ∀ e, bo.2 = some e →
    ∃ s, bo.1 = some s ∧ {x | s.token ≤ x ∧ x < e.token} = ⋃ i ∈ addressed, span marks i
  found : addressed.Nonempty → bo.2 ≠ none
  recombines : ∀ b, bo.1 = some b ∨ bo.2 = some b → b.Recombines blockSize

/-! ## Single positions -/

section Positions

variable {blockSize t : ℤ} {editType : EditType} {table : List ℤ} {k : ℕ} {boundary : Boundary}

/-- The position of a token. -/
def BlockOffset.ofToken (blockSize t : ℤ) : BlockOffset := ⟨t / blockSize, t % blockSize, t⟩

theorem BlockOffset.recombines_ofToken (hbs : 0 < blockSize) (t : ℤ) :
    (BlockOffset.ofToken blockSize t).Recombines blockSize :=
  ⟨Int.mul_comm _ _ ▸ Int.mul_ediv_add_emod t blockSize, Int.emod_nonneg t (ne_of_gt hbs),
    Int.emod_lt_of_pos t hbs⟩

theorem alignBlockForOp_editType (hbs : 0 < blockSize) :
    alignBlockForOp t blockSize (.editType editType) boundary = t / blockSize := by
  rw [alignBlockForOp, if_neg (by omega)]

theorem offsetComputer_eq (hbs : 0 < blockSize) (hk : k < messages.length) (ht : table[k]? = some t)
    (hpos : 0 < t) : editType.offsetComputer messages k blockSize boundary (some table) =
      some (.ofToken blockSize t) := by
  have hprefix : prefixDiffBlockOffset messages k blockSize (some table) =
      some (.ofToken blockSize t) := by
    have hne : ¬messages.isEmpty = true := by
      rw [List.isEmpty_iff]
      rintro rfl
      exact absurd hk (Nat.not_lt_zero k)
    rw [prefixDiffBlockOffset, if_neg hne, if_neg (by omega)]
    simp only [Int.toNat_natCast, Option.bind_eq_bind, Option.bind_some, ht]
    rw [if_neg (by omega)]
    rfl
  have hall : offsetComputer .positive messages k blockSize boundary (some table) =
      some (.ofToken blockSize t) := by
    rw [offsetComputer, hprefix, Option.map_some, alignBlockForOp, if_neg (by omega)]
    rfl
  cases editType <;> exact hall

theorem offsetComputer_neg (messagesTable : Option (List ℤ)) :
    editType.offsetComputer messages (-1) blockSize boundary messagesTable = none := by
  have hprefix : prefixDiffBlockOffset messages (-1) blockSize messagesTable = none := by
    rw [prefixDiffBlockOffset]
    split
    · rfl
    · rw [if_pos (Or.inl (by decide))]
  have hall : offsetComputer .positive messages (-1) blockSize boundary messagesTable = none := by
    rw [offsetComputer, hprefix, Option.map_none]
  cases editType <;> exact hall

end Positions

/-! ## Ends of an edit -/

section Ends

variable {edit : ContextEdit} {lo hi count : ℕ} {blockSize : ℤ} {editType : EditType}

/-- The indices of an accepted edit, with what is missing filled in. -/
structure ContextEdit.Ranges (edit : ContextEdit) (count lo hi : ℕ) : Prop where
  start : edit.start.getD 0 = lo
  stop : edit.stop.getD count = hi
  le : lo ≤ hi
  le_count : hi ≤ count
  past : lo = count → 0 < count → edit.start = some (count : ℤ) ∧ edit.stop = none

theorem ContextEdit.exists_ranges {tools : List T} (htarget : edit.target ≠ .session)
    (haccepted : edit.validateEditIndices (some messages) (some tools) = true) :
    ∃ lo hi, edit.Ranges (edit.count messages tools) lo hi := by
  have hbound : edit.bound (some messages) (some tools) = some (edit.count messages tools) := by
    unfold bound count
    cases edit.target <;> rfl
  rw [validateEditIndices, hbound] at haccepted
  generalize edit.count messages tools = count at haccepted
  obtain ⟨type, start, stop, target⟩ := edit
  cases start with
  | none =>
    cases stop with
    | none => exact ⟨0, count, rfl, rfl, Nat.zero_le _, le_refl _, fun h => by omega⟩
    | some stop =>
      simp at haccepted
      obtain ⟨hi, rfl⟩ := Int.eq_ofNat_of_zero_le haccepted.1
      exact ⟨0, hi, rfl, rfl, Nat.zero_le _, by omega, fun h => by omega⟩
  | some start =>
    cases stop with
    | none =>
      simp at haccepted
      obtain ⟨lo, rfl⟩ := Int.eq_ofNat_of_zero_le haccepted.1
      refine ⟨lo, count, rfl, rfl, by omega, le_refl _, fun h _ => ?_⟩
      rw [h]
      exact ⟨rfl, rfl⟩
    | some stop =>
      simp at haccepted
      obtain ⟨lo, rfl⟩ := Int.eq_ofNat_of_zero_le haccepted.1.1.1
      obtain ⟨hi, rfl⟩ := Int.eq_ofNat_of_zero_le haccepted.1.1.2
      exact ⟨lo, hi, rfl, rfl, by omega, by omega, fun h => by omega⟩

namespace ContextEdit.Ranges

variable (h : edit.Ranges count lo hi)

include h

theorem addressed_eq : edit.addressed count = Set.Ico lo hi := by
  ext i
  rw [addressed, h.start, h.stop]
  simp

theorem effStart_eq (bound : ℕ) :
    (edit.start.elim 0 fun start => max 0 (min start (bound : ℤ))) = (min lo bound : ℕ) := by
  have hstart := h.start
  cases hs : edit.start with
  | none =>
    rw [hs] at hstart
    simp only [Option.getD_none] at hstart
    simp only [Option.elim_none]
    omega
  | some start =>
    rw [hs] at hstart
    simp only [Option.getD_some] at hstart
    subst hstart
    simp only [Option.elim_some]
    omega

theorem effEnd_eq :
    (edit.stop.elim (count : ℤ) fun stop => max 0 (min stop (count : ℤ))) = (hi : ℕ) := by
  have hstop := h.stop
  have hle := h.le_count
  cases hs : edit.stop with
  | none =>
    rw [hs] at hstop
    exact hstop
  | some stop =>
    rw [hs] at hstop
    simp only [Option.getD_some] at hstop
    subst hstop
    simp only [Option.elim_some]
    omega

end ContextEdit.Ranges

end Ends

/-! ## Edits of tools -/

section Tools

variable {edit : ContextEdit} {lo hi : ℕ} {blockSize : ℤ} {editType : EditType} {table : List ℤ}

theorem toolsBlockOffset_eq (editType : EditType) (hbs : 0 < blockSize) (ht : IsToolsTable tools.length table)
    (h : edit.Ranges tools.length lo hi) : ∃ a b, table[lo]? = some a ∧ table[hi]? = some b ∧
      toolsBlockOffset editType tools.length edit.start edit.stop blockSize table =
        (some (.ofToken blockSize a), if lo = hi then none else some (.ofToken blockSize b)) := by
  have hlen := ht.length
  have hle := h.le
  have hcount := h.le_count
  refine ⟨table[lo], table[hi], List.getElem?_eq_getElem (by omega), List.getElem?_eq_getElem (by omega),
    ?_⟩
  rw [toolsBlockOffset, h.effStart_eq, h.effEnd_eq, Nat.min_eq_left (by omega)]
  simp only [Int.toNat_natCast, List.getElem?_eq_getElem (show lo < table.length by omega),
    List.getElem?_eq_getElem (show hi < table.length by omega), Option.getD_some,
    alignBlockForOp_editType hbs, Int.natCast_inj, ite_self]
  split <;> rfl

theorem isTranslation_tools (hbs : 0 < blockSize) (ht : IsToolsTable tools.length table)
    (h : edit.Ranges tools.length lo hi) :
    IsTranslation blockSize (edit.addressed tools.length) table
      (toolsBlockOffset editType tools.length edit.start edit.stop blockSize table) := by
  obtain ⟨a, b, ha, hb, heq⟩ := toolsBlockOffset_eq editType hbs ht h
  rw [heq, h.addressed_eq]
  refine ⟨fun e he => ?_, fun hsome => ?_, fun bo hbo => ?_⟩
  · split at he
    · cases he
    · cases he
      exact ⟨_, rfl, (iUnion_span ht.ascending h.le ha hb).symm⟩
  · have hlt := Set.nonempty_Ico.mp hsome
    simp [hlt.ne]
  · rcases hbo with hbo | hbo
    · cases hbo
      exact BlockOffset.recombines_ofToken hbs a
    · split at hbo
      · cases hbo
      · cases hbo
        exact BlockOffset.recombines_ofToken hbs b

end Tools

/-! ## Edits of messages -/

section Messages

variable {edit : ContextEdit} {lo hi : ℕ} {blockSize : ℤ} {editType : EditType} {table : List ℤ}

theorem IsMessagesTable.marks_ascending {count : ℕ} (hm : IsMessagesTable count table) :
    (0 :: table).Pairwise (· ≤ ·) :=
  List.pairwise_cons.mpr ⟨fun t ht => le_of_lt (hm.positive t ht), hm.ascending⟩

theorem messagesBlockOffset_eq {last : ℕ} (editType : EditType) (hbs : 0 < blockSize)
    (hlast : messages.length = last + 1) (hm : IsMessagesTable messages.length table)
    (h : edit.Ranges messages.length lo hi) :
    ∃ a b, (0 :: table)[min lo last]? = some a ∧ (0 :: table)[hi]? = some b ∧
      messagesBlockOffset editType messages edit.start edit.stop blockSize (some table) =
        (some (.ofToken blockSize a), if hi = 0 then none else some (.ofToken blockSize b)) := by
  have hlen := hm.length
  have hcount := h.le_count
  have hend (k : ℕ) (hk : k < messages.length) (boundary : Boundary) :
      ∃ t, (0 :: table)[k + 1]? = some t ∧
        editType.offsetComputer messages k blockSize boundary (some table) = some (.ofToken blockSize t) := by
    have ht : table[k]? = some table[k] := List.getElem?_eq_getElem (by omega)
    exact ⟨table[k], ht, offsetComputer_eq hbs hk ht (hm.positive _ (List.mem_of_getElem? ht))⟩
  have hstart : ∃ a, (0 :: table)[min lo last]? = some a ∧
      (if ((min lo last : ℕ) : ℤ) = 0 then some ⟨0, 0, 0⟩
        else editType.offsetComputer messages (((min lo last : ℕ) : ℤ) - 1) blockSize .start (some table)) =
          some (.ofToken blockSize a) := by
    cases hk : min lo last with
    | zero => exact ⟨0, rfl, by simp [BlockOffset.ofToken]⟩
    | succ k =>
      obtain ⟨t, ht, hcomp⟩ := hend k (by omega) .start
      refine ⟨t, ht, ?_⟩
      rw [if_neg (by omega), show ((k + 1 : ℕ) : ℤ) - 1 = k by omega]
      exact hcomp
  obtain ⟨a, ha, hastart⟩ := hstart
  have hlast' : (messages.length : ℤ) - 1 = (last : ℕ) := by omega
  cases hi with
  | zero =>
    refine ⟨a, 0, ha, rfl, ?_⟩
    rw [messagesBlockOffset, if_neg (by omega), hlast', h.effStart_eq, h.effEnd_eq]
    simp only [hastart, if_true]
    rw [show ((0 : ℕ) : ℤ) - 1 = -1 from rfl, offsetComputer_neg]
  | succ k =>
    obtain ⟨b, hb, hbend⟩ := hend k (by omega) .stop
    refine ⟨a, b, ha, hb, ?_⟩
    rw [messagesBlockOffset, if_neg (by omega), hlast', h.effStart_eq, h.effEnd_eq]
    simp only [hastart, if_neg (Nat.succ_ne_zero k)]
    rw [show ((k + 1 : ℕ) : ℤ) - 1 = k by omega, hbend]

/-- The span of an accepted edit is missed only behind the last message. -/
theorem isTranslation_messages (hbs : 0 < blockSize) (hm : IsMessagesTable messages.length table)
    (h : edit.Ranges messages.length lo hi) :
    IsTranslation blockSize (edit.addressed messages.length) (0 :: table)
      (messagesBlockOffset editType messages edit.start edit.stop blockSize (some table)) ↔
      ∀ last, messages.length = last + 1 → lo = messages.length → span (0 :: table) last = ∅ := by
  have hle := h.le
  have hcount := h.le_count
  have hlen := hm.length
  rw [h.addressed_eq]
  cases hn : messages.length with
  | zero =>
    rw [messagesBlockOffset, if_pos (by simp [hn])]
    refine iff_of_true ⟨fun e he => (by cases he), fun hsome => ?_, fun b hb => ?_⟩ fun _ h => by omega
    · have := Set.nonempty_Ico.mp hsome
      omega
    · rcases hb with hb | hb <;> cases hb
  | succ last =>
    obtain ⟨a, b, ha, hb, heq⟩ := messagesBlockOffset_eq editType hbs hn hm h
    rw [heq]
    -- a missing end and an empty edit go together
    have hzero : hi = 0 → Set.Ico lo hi = ∅ := fun hz => by rw [hz, Set.Ico_eq_empty (by omega)]
    have hexact : IsTranslation blockSize (Set.Ico lo hi) (0 :: table)
        (some (.ofToken blockSize a), if hi = 0 then none else some (.ofToken blockSize b)) ↔
        (hi ≠ 0 → Set.Ico a b = ⋃ i ∈ Set.Ico lo hi, span (0 :: table) i) := by
      constructor
      · intro htr hz
        obtain ⟨s, hs, hspan⟩ := htr.exact _ (if_neg hz)
        cases hs
        exact hspan
      · intro hspan
        refine ⟨fun e he => ?_, fun hsome => ?_, fun bo hbo => ?_⟩
        · split at he
          · cases he
          · next hz =>
            cases he
            exact ⟨_, rfl, hspan hz⟩
        · have hz : hi ≠ 0 := fun hz => hsome.ne_empty (hzero hz)
          simp [hz]
        · rcases hbo with hbo | hbo
          · cases hbo
            exact BlockOffset.recombines_ofToken hbs a
          · split at hbo
            · cases hbo
            · cases hbo
              exact BlockOffset.recombines_ofToken hbs b
    rw [hexact]
    by_cases hlo : lo = last + 1
    · -- nothing is addressed, and the last message is covered
      have hhi : hi = last + 1 := by omega
      rw [hlo, Nat.min_eq_right (Nat.le_succ last)] at ha
      rw [hlo, hhi, Set.Ico_self, ← span_eq ha (hhi ▸ hb)]
      simp
    · rw [Nat.min_eq_left (by omega)] at ha
      exact iff_of_true (fun _ => (iUnion_span hm.marks_ascending hle ha hb).symm) fun _ _ h => by omega

end Messages

/-- **Accepted edits are translated to the tokens that they address**, except for those that start
behind the last message. -/
theorem computeEditBlockOffset_covers_iff (edit : ContextEdit) {messagesTable toolsTable : List ℤ}
    {blockSize : ℤ} (htarget : edit.target ≠ .session)
    (haccepted : edit.validateEditIndices (some messages) (some tools) = true)
    (hm : IsMessagesTable messages.length messagesTable) (ht : IsToolsTable tools.length toolsTable)
    (hbs : 0 < blockSize) :
    (∃ bo, computeEditBlockOffset edit.type messages (some tools) edit.start edit.stop blockSize
        edit.target (some messagesTable) (some toolsTable) = some bo ∧
      IsTranslation blockSize (edit.addressed (edit.count messages tools))
        (edit.marks messagesTable toolsTable) bo) ↔
      ¬edit.StartsPastEnd messages messagesTable := by
  obtain ⟨lo, hi, h⟩ := ContextEdit.exists_ranges htarget haccepted
  unfold computeEditBlockOffset ContextEdit.StartsPastEnd ContextEdit.marks ContextEdit.count
  unfold ContextEdit.count at h
  rw [if_neg (by omega)]
  cases htgt : edit.target with
  | session => exact absurd htgt htarget
  | tools =>
    rw [htgt] at h
    change edit.Ranges tools.length lo hi at h
    refine iff_of_true ?_ fun hpast => by cases hpast.1
    have hlen := ht.length
    cases htools : tools.isEmpty with
    | true =>
      refine ⟨(none, none), by simp [htools],
        fun e he => (by cases he), fun hsome => ?_, fun b hb => ?_⟩
      · have hle := h.le_count
        rw [List.isEmpty_iff.mp htools, List.length_nil] at hle
        simp only [h.addressed_eq] at hsome
        have := Set.nonempty_Ico.mp hsome
        omega
      · rcases hb with hb | hb <;> cases hb
    | false =>
      exact ⟨toolsBlockOffset edit.type tools.length edit.start edit.stop blockSize toolsTable,
        by simp [htools, hlen], isTranslation_tools hbs ht h⟩
  | messages =>
    rw [htgt] at h
    change edit.Ranges messages.length lo hi at h
    simp only [Option.some.injEq, exists_eq_left', true_and]
    rw [isTranslation_messages hbs hm h]
    constructor
    · rintro hempty ⟨-, last, hlast, hstart, hsome⟩
      have hlo := h.start
      rw [hstart, Option.getD_some] at hlo
      exact hsome.ne_empty (hempty last hlast (by omega))
    · intro hpast last hlast hlo
      obtain ⟨hstart, hstop⟩ := h.past hlo (by omega)
      by_contra hne
      exact hpast ⟨hstop, last, hlast, hstart, Set.nonempty_iff_ne_empty.mpr hne⟩

/-! ## Two edits -/

/-- The second of two messages is to be offloaded. -/
def offloadSecond : ContextEdit := ⟨.offload, some 1, none, .messages⟩

theorem isMessagesTable_pair : IsMessagesTable ["a", "b"].length [5, 9] :=
  ⟨rfl, by decide, by decide⟩

theorem isToolsTable_none : IsToolsTable ([] : List String).length [0] :=
  ⟨rfl, by decide⟩

/-- From token 5 up to token 9. -/
theorem offloadSecond_covers :
    ∃ bo, computeEditBlockOffset .offload ["a", "b"] (some ([] : List String)) (some 1) none 4 .messages
        (some [5, 9]) (some [0]) = some bo ∧
      IsTranslation 4 (offloadSecond.addressed 2) [0, 5, 9] bo :=
  (computeEditBlockOffset_covers_iff offloadSecond (by decide) (by decide) isMessagesTable_pair
    isToolsTable_none (by decide)).mpr fun h => by
      obtain ⟨-, -, last, hlast, hstart, -⟩ := h
      exact absurd hstart (by decide)

/-- What follows the two messages is to be offloaded: nothing. -/
def offloadBehind : ContextEdit := ⟨.offload, some 2, none, .messages⟩

/-- The edit is accepted, and covers the second message. -/
theorem offloadBehind_covers :
    offloadBehind.validateEditIndices (some ["a", "b"]) (some ([] : List String)) = true ∧
    offloadBehind.addressed 2 = ∅ ∧
    computeEditBlockOffset .offload ["a", "b"] (some ([] : List String)) (some 2) none 4 .messages
      (some [5, 9]) (some [0]) = some (some ⟨1, 1, 5⟩, some ⟨2, 1, 9⟩) ∧
    ¬∃ bo, computeEditBlockOffset .offload ["a", "b"] (some ([] : List String)) (some 2) none 4 .messages
        (some [5, 9]) (some [0]) = some bo ∧
      IsTranslation 4 (offloadBehind.addressed 2) [0, 5, 9] bo := by
  have hnone : offloadBehind.addressed 2 = ∅ := by
    refine Set.eq_empty_of_forall_notMem fun i hi => ?_
    have hfrom : (2 : ℤ) ≤ i := hi.1
    have hto : (i : ℤ) < 2 := hi.2
    omega
  have hcomputed : computeEditBlockOffset .offload ["a", "b"] (some ([] : List String)) (some 2) none 4
      .messages (some [5, 9]) (some [0]) = some (some ⟨1, 1, 5⟩, some ⟨2, 1, 9⟩) := by decide
  refine ⟨by decide, hnone, hcomputed, ?_⟩
  rintro ⟨bo, hbo, htr⟩
  rw [hcomputed] at hbo
  cases hbo
  obtain ⟨s, hs, hspan⟩ := htr.exact _ rfl
  cases hs
  rw [hnone, Set.biUnion_empty] at hspan
  have hin : (5 : ℤ) ∈ (∅ : Set ℤ) := hspan ▸ ⟨le_refl _, by decide⟩
  exact hin

end PyMotor.Coordinator
