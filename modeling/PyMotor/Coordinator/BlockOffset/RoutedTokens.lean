import PyMotor.Coordinator.BlockOffset
import PyMotor.Coordinator.BlockOffset.Locating
import PyMotor.Coordinator.BlockOffset.Preprocess

/-!
# The tokens that are routed

A request is tokenized once for the KV affinity, and these token ids are what it is routed by
(`TokenizerManager`, `_ensure_token_ids`). The offset tables are computed over tokens of their own: the
calculators render the request again, with another preprocessing and with options of their own
(`attach_block_offsets`). Offsets are only worth something if both are the same tokens
(`OffsetsFollow`).

What a hint asks for is attached if there is a table (`OffsetTables.exists_attached`), and there is one
only where messages have known roles or tools have names (`tabulable_of_table`).
-/

namespace PyMotor.Coordinator

/-! ## Requests -/

structure CacheControl where
  /-- Counted from one; where it is missing it is the number of messages. -/
  msgOffset : ℤ

structure ContextManagement where
  manageRequest : Bool
  edits : List ContextEdit

structure AgentHint where
  sessionId : Option String
  cacheControl : Option CacheControl
  contextManagement : Option ContextManagement

structure ChatRequest where
  messages : List Json
  tools : Option (List Json)
  /-- This one and the next are null where they are missing. -/
  reasoningEffort : Json
  chatTemplateKwargs : Json
  agentHint : Option AgentHint

namespace AgentHint

def edits (hint : AgentHint) : List ContextEdit := hint.contextManagement.elim [] (·.edits)

/-- The tables are needed: a request that manages a session, unless it is about the whole session. -/
def needsTables (hint : AgentHint) : Bool :=
  hint.sessionId.any (fun id => !id.isEmpty) && hint.contextManagement.any (·.manageRequest) &&
    !(hint.edits.any (fun edit => decide (edit.target = .session)) && hint.cacheControl.isNone)

end AgentHint

/-! ## Routing -/

/-- The tokenizer of the model, and how requests are rendered for it. -/
structure TokenizerManager where
  tokenizer : Tokenizer
  isDsv4 : Bool
  openaiStandard : String

/-- Options of the request override the defaults. -/
def buildDsv4ChatTemplateKwargs (req : ChatRequest) : Dict String Json :=
  let kwargs := ((∅ : Dict String Json).insert "tokenize" (.bool true)).insert "drop_thinking" (.bool true)
  let kwargs := match req.reasoningEffort with
    | .null => kwargs
    | effort => kwargs.insert "reasoning_effort" effort
  let kwargs := match req.chatTemplateKwargs with
    | .obj fields => fields.foldl (fun kwargs field => kwargs.insert field.1 field.2) kwargs
    | _ => kwargs
  match req.reasoningEffort with
  | .null => kwargs
  | effort =>
    if kwargs.contains "enable_thinking" then kwargs
    else kwargs.insert "enable_thinking" (.bool (match effort with
      | .str s => decide (s ≠ "none")
      | _ => true))

def standardKwargs : Dict String Json :=
  (((∅ : Dict String Json).insert "add_generation_prompt" (.bool true)).insert "tokenize"
    (.bool true)).insert "return_dict" (.bool false)

namespace TokenizerManager

-- `json.loads`
variable (loads : String → Option Json) (m : TokenizerManager) (req : ChatRequest)

/-- Only a text can be encoded. -/
def encodeRendered (addSpecialTokens : Bool) : Rendered → Option Rendered
  | .text text => ((m.tokenizer.encode text addSpecialTokens).toOption).map Rendered.ids
  | _ => none

/-- The tools are an argument of their own, and cannot be an option too. -/
def applyChatTemplateDsv4 : Option Rendered := do
  let (messages, tools) ← preprocessMessagesForDsv4 loads req.messages req.tools
  let kwargs := buildDsv4ChatTemplateKwargs req
  if kwargs.contains "tools" then none
  else
    match ← (m.tokenizer.applyChatTemplate ⟨messages, tools, kwargs⟩).toOption with
    | .ids ids => return .ids ids
    | rendered => m.encodeRendered false rendered

def applyChatTemplateStandard : Option Rendered := do
  let messages ← preprocessMessagesForStandard req.messages
  (m.tokenizer.applyChatTemplate ⟨messages, req.tools, standardKwargs⟩).toOption

/-- The preprocessing of the path that encodes the rendered prompt. -/
def preprocessPrompt : Option (List Json × Option (List Json)) := do
  let (messages, tools) ← preprocessInput loads req.messages req.tools
  let messages ← preprocessMessagesForStandard messages
  return (messages, tools)

def applyChatTemplateWithPreprocess : Option Rendered := do
  let (messages, tools) ← preprocessPrompt loads req
  let prompt ← (m.tokenizer.applyChatTemplate
    ⟨messages, tools, (∅ : Dict String Json).insert "tokenize" (.bool false)⟩).toOption
  m.encodeRendered true prompt

/-- The standard path once more. -/
def safeFallbackEncode : Rendered := (m.applyChatTemplateStandard req).getD (.ids [])

def applyChatTemplate : Rendered :=
  if m.isDsv4 then (m.applyChatTemplateDsv4 loads req).getD (.ids [])
  else if m.openaiStandard ≠ "STANDARD" then
    (m.applyChatTemplateWithPreprocess loads req).getD (m.safeFallbackEncode req)
  else (m.applyChatTemplateStandard req).getD (m.safeFallbackEncode req)

/-- What is stored on a chat request. -/
def ensureTokenIds : Rendered := m.applyChatTemplate loads req

end TokenizerManager

/-! ## Offsets -/

def computeBlockOffset (messages : List Json) (msgOffset blockSize : ℤ)
    (messagesTable : Option (List ℤ)) : Option BlockOffset :=
  if blockSize ≤ 0 then none
  else if messages.isEmpty then none
  else do
    let table ← messagesTable
    let effective := msgOffset - 1
    if effective < 0 then none
    else
      let tokenIdx ← table[effective.toNat]?
      if tokenIdx = 0 then none else some ⟨tokenIdx / blockSize, tokenIdx % blockSize, tokenIdx⟩

/-- The preprocessing of the calculator for the tokenizer. -/
def calculatorPreprocess (loads : String → Option Json) (isDsv4 : Bool) (messages : List Json)
    (tools : Option (List Json)) : Option (List Json × Option (List Json)) :=
  if isDsv4 then preprocessMessagesForDsv4 loads messages tools else some (messages, tools)

/-- The tables of a request, with what they are tables of. -/
structure OffsetTables where
  messages : List Json
  tools : Option (List Json)
  messagesTable : Option (List ℕ)
  toolsTable : Option (List ℕ)

namespace Tokenizer

variable (tok : Tokenizer)

def computeMessages (messages : List Json) (tools : Option (List Json)) :
    Except TokenizerError (Option (List ℕ)) :=
  if tok.isDsv4 then .ok (Dsv4.buildMessagesOffsetTable tok messages tools)
  else Standard.buildMessagesOffsetTable tok messages tools

def computeTools (messages : List Json) (tools : Option (List Json)) : Option (List ℕ) :=
  if tok.isDsv4 then Dsv4.buildToolsOffsetTable tok messages tools
  else Standard.buildToolsOffsetTable tok messages tools

/-- Where something raises, nothing is attached. -/
def offsetTables (loads : String → Option Json) (req : ChatRequest) : Option OffsetTables := do
  let (messages, tools) ← calculatorPreprocess loads tok.isDsv4 req.messages req.tools
  let messagesTable ← (tok.computeMessages messages tools).toOption
  return ⟨messages, tools, messagesTable, tok.computeTools messages tools⟩

end Tokenizer

namespace OffsetTables

variable (t : OffsetTables)

def table : EditTarget → Option (List ℕ)
  | .messages => t.messagesTable
  | .tools => t.toolsTable
  | .session => none

/-- What an edit gets; a session has no offsets. -/
def editOffsets (blockSize : ℤ) (edit : ContextEdit) : Option BlockOffset × Option BlockOffset :=
  (computeEditBlockOffset edit.type t.messages t.tools edit.start edit.stop blockSize edit.target
    (t.messagesTable.map (·.map Int.ofNat)) (t.toolsTable.map (·.map Int.ofNat))).getD (none, none)

/-- The offsets that are attached, each with what it is an offset of. -/
def attached (hint : AgentHint) (blockSize : ℤ) : List (EditTarget × BlockOffset) :=
  let cacheControl := hint.cacheControl.bind fun cc =>
    computeBlockOffset t.messages cc.msgOffset blockSize (t.messagesTable.map (·.map Int.ofNat))
  (cacheControl.toList.map fun bo => (.messages, bo)) ++
    hint.edits.flatMap fun edit =>
      ((t.editOffsets blockSize edit).1.toList ++ (t.editOffsets blockSize edit).2.toList).map fun bo =>
        (edit.target, bo)

end OffsetTables

/-- The tokens that a table is computed over. -/
def Tokenizer.tokensOf (tok : Tokenizer) (t : OffsetTables) (target : EditTarget) : Option (List ℤ) :=
  match target, tok.isDsv4 with
  | .tools, false =>
    match tok.renderForTable t.messages t.tools false with
    | .ok (.text full) => (tok.encode full false).toOption
    | _ => none
  | _, _ =>
    match tok.renderForTable t.messages t.tools true with
    | .ok (.ids ids) => some ids
    | _ => none

/-- Whatever is attached by a table: the table is computed over the tokens that are routed. -/
def OffsetsFollow (loads : String → Option Json) (m : TokenizerManager) (req : ChatRequest)
    (blockSize : ℤ) : Prop :=
  ∀ hint t target bo, req.agentHint = some hint → hint.needsTables = true →
    m.tokenizer.offsetTables loads req = some t → t.table target ≠ none →
    (target, bo) ∈ t.attached hint blockSize →
    ∃ ids, m.tokenizer.tokensOf t target = some ids ∧ m.ensureTokenIds loads req = .ids ids

/-! ## What can be attached -/

/-- Every message has a role whose end is marked, or is the system's at the start. -/
def Dsv4.rolesKnown : List Json → Bool
  | [] => true
  | msg :: msgs => (isRole msg "system" || decide (markerRole msg ≠ .unknown)) &&
      msgs.all fun msg => decide (markerRole msg ≠ .unknown)

/-- The hint asks for offsets of messages, or of tools. -/
def AgentHint.Addresses (hint : AgentHint) (count : ℕ) (target : EditTarget) : Prop :=
  (∃ edit ∈ hint.edits, edit.target = target) ∨
    target = .messages ∧ ∃ cc, hint.cacheControl = some cc ∧ 1 ≤ cc.msgOffset ∧ cc.msgOffset ≤ count

/-- There may be a table: of messages whose ends are marked, or of tools that have names. -/
def Tabulable (isDsv4 : Bool) (messages : List Json) (tools : Option (List Json)) : EditTarget → Prop
  | .messages => messages ≠ [] ∧ (isDsv4 = true → Dsv4.rolesKnown messages = true)
  | .tools => tools.getD [] ≠ [] ∧ ∀ tool ∈ tools.getD [], toolName tool ≠ none
  | .session => False

/-- The request gets offsets if the tokenizer renders it as is expected of it. -/
def Attachable (loads : String → Option Json) (isDsv4 : Bool) (req : ChatRequest) (blockSize : ℤ)
    (target : EditTarget) : Prop :=
  0 < blockSize ∧ ∃ hint messages tools, req.agentHint = some hint ∧ hint.needsTables = true ∧
    calculatorPreprocess loads isDsv4 req.messages req.tools = some (messages, tools) ∧
    hint.Addresses messages.length target ∧ Tabulable isDsv4 messages tools target

namespace OffsetTables

variable {t : OffsetTables} {hint : AgentHint} {blockSize : ℤ} {target : EditTarget} {bo : BlockOffset}

theorem addresses_of_attached (hlen : ∀ table, t.messagesTable = some table →
      table.length = t.messages.length) (h : (target, bo) ∈ t.attached hint blockSize) :
    0 < blockSize ∧ hint.Addresses t.messages.length target := by
  rw [attached, List.mem_append] at h
  rcases h with h | h
  · obtain ⟨bo', hbo', heq⟩ := List.mem_map.mp h
    cases heq
    obtain ⟨cc, hcc, hoffset⟩ := Option.bind_eq_some_iff.mp (Option.mem_toList.mp hbo')
    rw [computeBlockOffset] at hoffset
    split at hoffset
    · cases hoffset
    · next hbs =>
      split at hoffset
      · cases hoffset
      · obtain ⟨table', htable', hoffset⟩ := Option.bind_eq_some_iff.mp hoffset
        obtain ⟨table, htable, rfl⟩ := Option.map_eq_some_iff.mp htable'
        simp only at hoffset
        split at hoffset
        · cases hoffset
        · obtain ⟨tokenIdx, htoken, -⟩ := Option.bind_eq_some_iff.mp hoffset
          have hlt := (List.getElem?_eq_some_iff.mp htoken).1
          rw [List.length_map, hlen table htable] at hlt
          exact ⟨by omega, Or.inr ⟨rfl, cc, hcc, by omega, by omega⟩⟩
  · obtain ⟨edit, hedit, h⟩ := List.mem_flatMap.mp h
    obtain ⟨bo', hbo', heq⟩ := List.mem_map.mp h
    cases heq
    refine ⟨?_, Or.inl ⟨edit, hedit, rfl⟩⟩
    by_contra hbs
    have hnone : t.editOffsets blockSize edit = (none, none) := by
      unfold editOffsets computeEditBlockOffset
      rw [if_pos (by omega)]
      rfl
    rw [hnone] at hbo'
    cases hbo'

theorem getElem?_map_ofNat {table : List ℕ} {k : ℕ} (hk : k < table.length) :
    (table.map Int.ofNat)[k]? = some (table[k] : ℤ) := by
  rw [List.getElem?_map, List.getElem?_eq_getElem hk]
  rfl

theorem exists_start_tools {edit : ContextEdit} {tools : List Json} {table : List ℕ} (hbs : 0 < blockSize)
    (htarget : edit.target = .tools) (hlist : t.tools = some tools) (hne : tools ≠ [])
    (htable : t.toolsTable = some table) (hlen : table.length = tools.length + 1) :
    ∃ bo, (t.editOffsets blockSize edit).1 = some bo := by
  unfold editOffsets computeEditBlockOffset
  rw [if_neg (by omega), htarget]
  simp only [hlist, htable, Option.map_some, List.length_map, hlen, decide_true, Bool.and_true]
  rw [if_pos (by simpa using hne)]
  simp only [Option.getD_some, toolsBlockOffset]
  split
  · exact ⟨_, rfl⟩
  · exact ⟨_, rfl⟩

/-- The start of an edit of messages is the start of the request, or the end of some message. -/
theorem exists_start_messages {edit : ContextEdit} {table : List ℕ} (hbs : 0 < blockSize)
    (htarget : edit.target = .messages) (htable : t.messagesTable = some table)
    (hpos : 0 < t.messages.length) (hlen : table.length = t.messages.length)
    (hentries : ∀ n ∈ table, 0 < n) : ∃ bo, (t.editOffsets blockSize edit).1 = some bo := by
  unfold editOffsets computeEditBlockOffset
  rw [if_neg (by omega), htarget]
  simp only [htable, Option.map_some, Option.getD_some, messagesBlockOffset]
  rw [if_neg (by omega)]
  simp only
  split
  · exact ⟨_, rfl⟩
  · next hzero =>
    -- the index is clamped to the messages that there are
    generalize heff : (edit.start.elim 0 fun start =>
      max 0 (min start ((t.messages.length : ℤ) - 1))) = effStart at hzero
    have hrange : 0 ≤ effStart ∧ effStart ≤ (t.messages.length : ℤ) - 1 := by
      rw [← heff]
      cases edit.start with
      | none => exact ⟨le_refl 0, by simp only [Option.elim_none]; omega⟩
      | some start =>
        simp only [Option.elim_some]
        omega
    obtain ⟨k, hk⟩ := Int.eq_ofNat_of_zero_le (show 0 ≤ effStart - 1 by omega)
    have hklt : k < table.length := by omega
    have hentry := hentries _ (List.getElem_mem hklt)
    rw [hk]
    exact ⟨_, offsetComputer_eq hbs (by omega) (getElem?_map_ofNat hklt) (by omega)⟩

theorem exists_computeBlockOffset {msgOffset : ℤ} {table : List ℕ} (hbs : 0 < blockSize)
    (htable : t.messagesTable = some table) (hpos : 0 < t.messages.length)
    (hlen : table.length = t.messages.length) (hentries : ∀ n ∈ table, 0 < n) (hlo : 1 ≤ msgOffset)
    (hhi : msgOffset ≤ t.messages.length) : ∃ bo, computeBlockOffset t.messages msgOffset blockSize
      (t.messagesTable.map (·.map Int.ofNat)) = some bo := by
  have hklt : (msgOffset - 1).toNat < table.length := by omega
  have hentry := hentries _ (List.getElem_mem hklt)
  rw [computeBlockOffset, if_neg (by omega),
    if_neg (by rw [List.isEmpty_iff]; exact List.length_pos_iff.mp hpos), htable]
  simp only [Option.map_some, Option.bind_eq_bind, Option.bind_some]
  rw [if_neg (by omega), getElem?_map_ofNat hklt, Option.bind_some, if_neg (by omega)]
  exact ⟨_, rfl⟩

theorem exists_attached (hbs : 0 < blockSize) (haddress : hint.Addresses t.messages.length target)
    (hmessages : target = .messages → ∃ table, t.messagesTable = some table ∧
      0 < t.messages.length ∧ table.length = t.messages.length ∧ ∀ n ∈ table, 0 < n)
    (htools : target = .tools → ∃ tools table, t.tools = some tools ∧ tools ≠ [] ∧
      t.toolsTable = some table ∧ table.length = tools.length + 1)
    (hsession : target ≠ .session) : ∃ bo, (target, bo) ∈ t.attached hint blockSize := by
  rcases haddress with ⟨edit, hedit, rfl⟩ | ⟨rfl, cc, hcc, hlo, hhi⟩
  · have hstart : ∃ bo, (t.editOffsets blockSize edit).1 = some bo := by
      cases htarget : edit.target with
      | session => exact absurd htarget hsession
      | tools =>
        obtain ⟨tools, table, hlist, hne, htable, hlen⟩ := htools htarget
        exact exists_start_tools hbs htarget hlist hne htable hlen
      | messages =>
        obtain ⟨table, htable, hpos, hlen, hentries⟩ := hmessages htarget
        exact exists_start_messages hbs htarget htable hpos hlen hentries
    obtain ⟨bo, hbo⟩ := hstart
    refine ⟨bo, List.mem_append_right _ (List.mem_flatMap.mpr ⟨edit, hedit, ?_⟩)⟩
    refine List.mem_map.mpr ⟨bo, List.mem_append_left _ ?_, rfl⟩
    rw [hbo]
    exact List.mem_singleton_self bo
  · obtain ⟨table, htable, hpos, hlen, hentries⟩ := hmessages rfl
    obtain ⟨bo, hbo⟩ := exists_computeBlockOffset hbs htable hpos hlen hentries hlo hhi
    refine ⟨bo, List.mem_append_left _ (List.mem_map.mpr ⟨bo, ?_, rfl⟩)⟩
    rw [hcc, Option.bind_some, hbo]
    exact Option.mem_toList.mpr rfl

end OffsetTables

/-! ## Tables of any tokenizer -/

theorem Dsv4.known_of_scan {userPos asstPos eosPos : List ℕ} {messages : List Json} {u a e : ℕ}
    {table : List ℕ} (h : scan userPos asstPos eosPos u a e messages = some table) :
    (messages.all fun msg => decide (markerRole msg ≠ .unknown)) = true := by
  induction messages generalizing u a e table with
  | nil => rfl
  | cons msg messages ih =>
    rw [scan] at h
    rw [List.all_cons, Bool.and_eq_true, decide_eq_true_eq]
    split at h
    · next hrole =>
      simp only [Option.bind_eq_bind, Option.bind_eq_some_iff] at h
      obtain ⟨step, -, rest, hrest, -⟩ := h
      exact ⟨by rw [hrole]; decide, ih hrest⟩
    · next hrole =>
      simp only [Option.bind_eq_bind, Option.bind_eq_some_iff] at h
      obtain ⟨p, -, rest, hrest, -⟩ := h
      exact ⟨by rw [hrole]; decide, ih hrest⟩
    · cases h

theorem Dsv4.rolesKnown_of_scanAll {userPos asstPos eosPos table : List ℕ} {messages : List Json}
    (h : scanAll userPos asstPos eosPos messages = some table) : rolesKnown messages = true := by
  cases messages with
  | nil => rfl
  | cons msg messages =>
    rw [rolesKnown, Bool.and_eq_true, Bool.or_eq_true]
    rw [scanAll] at h
    split at h
    · next hsystem =>
      simp only [Option.bind_eq_bind, Option.bind_eq_some_iff] at h
      obtain ⟨p, -, rest, hrest, -⟩ := h
      exact ⟨Or.inl hsystem, known_of_scan hrest⟩
    · have hknown := known_of_scan h
      rw [List.all_cons, Bool.and_eq_true] at hknown
      exact ⟨Or.inr hknown.1, hknown.2⟩

section Tabulated

variable {tok : Tokenizer} {loads : String → Option Json} {req : ChatRequest} {t : OffsetTables}
  {target : EditTarget} {messages : List Json} {tools : Option (List Json)} {table : List ℕ}

theorem offsetTables_eq_some_iff : tok.offsetTables loads req = some t ↔
    calculatorPreprocess loads tok.isDsv4 req.messages req.tools = some (t.messages, t.tools) ∧
      tok.computeMessages t.messages t.tools = .ok t.messagesTable ∧
      tok.computeTools t.messages t.tools = t.toolsTable := by
  unfold Tokenizer.offsetTables
  simp only [Option.bind_eq_bind, Option.bind_eq_some_iff, Option.pure_def, Option.some.injEq]
  constructor
  · rintro ⟨⟨messages, tools⟩, hpre, messagesTable, htable, rfl⟩
    refine ⟨hpre, ?_, rfl⟩
    cases hcompute : tok.computeMessages messages tools with
    | error err =>
      rw [hcompute] at htable
      cases htable
    | ok table =>
      rw [hcompute] at htable
      cases htable
      rfl
  · rintro ⟨hpre, htable, htools⟩
    refine ⟨_, hpre, t.messagesTable, by rw [htable]; rfl, ?_⟩
    rw [htools]

theorem tabulable_messages (h : tok.computeMessages messages tools = .ok (some table)) :
    (messages ≠ [] ∧ (tok.isDsv4 = true → Dsv4.rolesKnown messages = true)) ∧
      table.length = messages.length := by
  unfold Tokenizer.computeMessages at h
  split at h
  · next hdsv4 =>
    simp only [Except.ok.injEq] at h
    unfold Dsv4.buildMessagesOffsetTable at h
    split at h
    · cases h
    · next hne =>
      obtain ⟨s, -, hscan⟩ := Option.bind_eq_some_iff.mp h
      exact ⟨⟨by simpa using hne, fun _ => Dsv4.rolesKnown_of_scanAll hscan⟩,
        Dsv4.length_of_scanAll hscan⟩
  · next hdsv4 =>
    obtain ⟨ids, -, hsound⟩ := Standard.isOffsetTable_buildMessagesOffsetTable h
    refine ⟨⟨?_, fun h => absurd h hdsv4⟩, hsound.length⟩
    rintro rfl
    cases h

theorem tabulable_tools (h : tok.computeTools messages tools = some table) :
    (tools.getD [] ≠ [] ∧ ∀ tool ∈ tools.getD [], toolName tool ≠ none) ∧
      ∃ list, tools = some list ∧ table.length = list.length + 1 := by
  unfold Tokenizer.computeTools at h
  split at h
  · have hlen := (Dsv4.isToolOffsets h).length
    unfold Dsv4.buildToolsOffsetTable at h
    split at h
    · cases h
    · cases h
    · next list hne =>
      split at h
      · split at h
        · cases h
        · split at h
          · simp only at h
            split at h
            · cases h
            · obtain ⟨positions, hlocated, -⟩ := Option.bind_eq_some_iff.mp h
              exact ⟨⟨fun heq => hne heq, Dsv4.named_of_locateTools hlocated⟩,
                list, rfl, hlen⟩
          · cases h
      · cases h
  · have hlen := (Standard.isToolOffsets h).length
    unfold Standard.buildToolsOffsetTable at h
    split at h
    · cases h
    · cases h
    · next list hne =>
      split at h
      · simp only at h
        split at h
        · cases h
        · obtain ⟨positions, hlocated, -⟩ := Option.bind_eq_some_iff.mp h
          exact ⟨⟨fun heq => hne heq, Standard.named_of_locateTools hlocated⟩,
            list, rfl, hlen⟩
      · cases h

theorem tabulable_of_table (h : tok.offsetTables loads req = some t) (ht : t.table target ≠ none) :
    Tabulable tok.isDsv4 t.messages t.tools target := by
  obtain ⟨-, hmessages, htools⟩ := offsetTables_eq_some_iff.mp h
  cases target with
  | session => exact ht rfl
  | messages =>
    obtain ⟨table, htable⟩ := Option.ne_none_iff_exists'.mp ht
    rw [OffsetTables.table] at htable
    rw [htable] at hmessages
    exact (tabulable_messages hmessages).1
  | tools =>
    obtain ⟨table, htable⟩ := Option.ne_none_iff_exists'.mp ht
    rw [OffsetTables.table] at htable
    rw [htable] at htools
    exact (tabulable_tools htools).1

end Tabulated

end PyMotor.Coordinator
