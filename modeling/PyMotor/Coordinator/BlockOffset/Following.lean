import PyMotor.Coordinator.BlockOffset.Probes

/-!
# Offsets of the routed tokens

The offsets that are attached to a request are offsets of the tokens that it is routed by only if both
are rendered by the same call. For an arbitrary chat template that is never so: a template that raises
on `return_dict` is called again without it by the calculators, and not by the router. For a template as
documented it is so on the standard path, if the preprocessing of the calculator does what the one of
the router does; which it does if all contents are strings. On the other paths the router calls with
options of its own, and it is never so (`offsets_follow_routed_iff`).
-/

namespace PyMotor.Coordinator

/-! ## The standard path -/

/-- What is documented: `return_dict` is known, and tokens are those of the text, which has some. -/
structure Tokenizer.Documented (tok : Tokenizer) : Prop where
  knowsReturnDict : ∀ conversation tools kwargs,
    tok.applyChatTemplate ⟨conversation, tools, kwargs.insert "return_dict" (.bool false)⟩ =
      .error .typeError → tok.applyChatTemplate ⟨conversation, tools, kwargs⟩ = .error .typeError
  tokenizesText : ∀ conversation tools kwargs kwargs' text,
    kwargs.get? "tokenize" = some (.bool false) → kwargs'.get? "tokenize" = some (.bool true) →
    kwargs'.get? "return_dict" = some (.bool false) →
    (∀ key, key ≠ "tokenize" → kwargs.get? key = kwargs'.get? key) →
    tok.applyChatTemplate ⟨conversation, tools, kwargs⟩ = .ok (.text text) →
    ∃ ids, tok.encode text false = .ok ids ∧
      tok.applyChatTemplate ⟨conversation, tools, kwargs'⟩ = .ok (.ids ids)

/-- The standard call is made: at once, or because the other preprocessing raises. -/
def TokenizerManager.StandardPath (m : TokenizerManager) (loads : String → Option Json)
    (req : ChatRequest) : Prop :=
  m.isDsv4 = false ∧ (m.openaiStandard = "STANDARD" ∨ preprocessPrompt loads req = none)

/-- The calculator brings messages and tools into the form of the standard path. -/
def RendersAlike (loads : String → Option Json) (isDsv4 : Bool) (req : ChatRequest) : Prop :=
  (preprocessMessagesForStandard req.messages).map (fun messages => (messages, req.tools)) =
    calculatorPreprocess loads isDsv4 req.messages req.tools

section Standard

variable {loads : String → Option Json} {m : TokenizerManager} {req : ChatRequest} {blockSize : ℤ}
  {tok : Tokenizer} {messages : List Json} {tools : Option (List Json)} {t : OffsetTables}
  {target : EditTarget}

theorem ensureTokenIds_of_standardPath (h : m.StandardPath loads req) :
    m.ensureTokenIds loads req = (m.applyChatTemplateStandard req).getD (.ids []) := by
  obtain ⟨hdsv4, hpath⟩ := h
  unfold TokenizerManager.ensureTokenIds TokenizerManager.applyChatTemplate
  rw [if_neg (by simp [hdsv4])]
  split
  · next hne =>
    have hprompt := hpath.resolve_left hne
    rw [TokenizerManager.applyChatTemplateWithPreprocess, hprompt]
    rfl
  · rw [TokenizerManager.safeFallbackEncode]
    cases m.applyChatTemplateStandard req <;> rfl

/-- With a template as documented, the first of the two calls is the one that is answered. -/
theorem apply_of_renderForTable {tokenize : Bool} {rendered : Rendered} (hdoc : tok.Documented)
    (h : tok.renderForTable messages tools tokenize = .ok rendered) :
    tok.applyChatTemplate
      ⟨messages, tools, (Tokenizer.tableKwargs tokenize).insert "return_dict" (.bool false)⟩ =
        .ok rendered := by
  rw [Tokenizer.renderForTable] at h
  split at h
  · next hcall =>
    rw [hdoc.knowsReturnDict _ _ _ hcall] at h
    cases h
  · exact h

theorem apply_of_renderText {text : String} (hdoc : tok.Documented)
    (h : tok.renderForTable messages tools false = .ok (.text text)) :
    ∃ ids, tok.encode text false = .ok ids ∧
      tok.applyChatTemplate ⟨messages, tools, standardKwargs⟩ = .ok (.ids ids) := by
  refine hdoc.tokenizesText messages tools _ standardKwargs text ?_ ?_ ?_ ?_
    (apply_of_renderForTable hdoc h)
  · rfl
  · rfl
  · rfl
  · intro key hkey
    simp only [standardKwargs, Tokenizer.tableKwargs, Dict.get?_insert, if_neg (Ne.symm hkey)]

theorem Dsv4.render_of_messagesTable {table : List ℕ}
    (h : buildMessagesOffsetTable tok messages tools = some table) :
    ∃ ids, tok.renderForTable messages tools true = .ok (.ids ids) := by
  rw [buildMessagesOffsetTable] at h
  split at h
  · cases h
  · obtain ⟨s, hscanned, -⟩ := Option.bind_eq_some_iff.mp h
    exact ⟨s.ids, renderForTable_of_scanned hscanned⟩

theorem Dsv4.render_of_toolsTable {table : List ℕ}
    (h : buildToolsOffsetTable tok messages tools = some table) :
    ∃ ids, tok.renderForTable messages tools true = .ok (.ids ids) := by
  rw [buildToolsOffsetTable.eq_def] at h
  split at h
  · cases h
  · cases h
  · split at h
    · next ids hrender => exact ⟨ids, hrender⟩
    · cases h

theorem Standard.render_of_toolsTable {table : List ℕ}
    (h : buildToolsOffsetTable tok messages tools = some table) :
    ∃ text, tok.renderForTable messages tools false = .ok (.text text) := by
  rw [buildToolsOffsetTable.eq_def] at h
  split at h
  · cases h
  · cases h
  · split at h
    · next text hrender => exact ⟨text, hrender⟩
    · cases h

theorem rendered_of_table (h : tok.offsetTables loads req = some t) (ht : t.table target ≠ none) :
    (∃ ids, tok.renderForTable t.messages t.tools true = .ok (.ids ids) ∧
      tok.tokensOf t target = some ids) ∨
    ∃ text, tok.renderForTable t.messages t.tools false = .ok (.text text) ∧
      tok.tokensOf t target = (tok.encode text false).toOption := by
  obtain ⟨-, hmessages, htools⟩ := offsetTables_eq_some_iff.mp h
  obtain ⟨table, htable⟩ := Option.ne_none_iff_exists'.mp ht
  unfold Tokenizer.tokensOf
  cases target with
  | session => cases htable
  | messages =>
    rw [OffsetTables.table] at htable
    rw [htable] at hmessages
    have hrender : ∃ ids, tok.renderForTable t.messages t.tools true = .ok (.ids ids) := by
      unfold Tokenizer.computeMessages at hmessages
      split at hmessages
      · exact Dsv4.render_of_messagesTable (Except.ok.inj hmessages)
      · obtain ⟨ids, hids, -⟩ := Standard.isOffsetTable_buildMessagesOffsetTable hmessages
        exact ⟨ids, hids⟩
    obtain ⟨ids, hids⟩ := hrender
    exact Or.inl ⟨ids, hids, by simp only [hids]⟩
  | tools =>
    rw [OffsetTables.table] at htable
    rw [htable] at htools
    unfold Tokenizer.computeTools at htools
    split at htools
    · next hdsv4 =>
      obtain ⟨ids, hids⟩ := Dsv4.render_of_toolsTable htools
      exact Or.inl ⟨ids, hids, by simp only [hdsv4, hids]⟩
    · next hdsv4 =>
      obtain ⟨text, htext⟩ := Standard.render_of_toolsTable htools
      exact Or.inr ⟨text, htext, by simp only [Bool.eq_false_of_not_eq_true hdsv4, htext]⟩

/-- **On the standard path, a template as documented gives offsets of the routed tokens** if both
preprocessings do the same. -/
theorem offsetsFollow_of_rendersAlike (hdoc : m.tokenizer.Documented) (hpath : m.StandardPath loads req)
    (halike : RendersAlike loads m.tokenizer.isDsv4 req) : OffsetsFollow loads m req blockSize := by
  intro hint t target bo _ _ htables htable _
  obtain ⟨hpre, -, -⟩ := offsetTables_eq_some_iff.mp htables
  rw [RendersAlike, hpre] at halike
  obtain ⟨messages, hmessages, heq⟩ := Option.map_eq_some_iff.mp halike
  obtain ⟨rfl, htools⟩ := Prod.mk.inj heq
  -- the call of the router
  have hrouted (ids : List ℤ) (hcall : m.tokenizer.applyChatTemplate ⟨t.messages, t.tools, standardKwargs⟩ =
      .ok (.ids ids)) : m.ensureTokenIds loads req = .ids ids := by
    rw [ensureTokenIds_of_standardPath hpath, TokenizerManager.applyChatTemplateStandard]
    simp only [hmessages, Option.bind_eq_bind, Option.bind_some, htools, hcall]
    rfl
  rcases rendered_of_table htables htable with ⟨ids, hids, htokens⟩ | ⟨text, htext, htokens⟩
  · exact ⟨ids, htokens, hrouted ids (apply_of_renderForTable hdoc hids)⟩
  · obtain ⟨ids, hencode, hcall⟩ := apply_of_renderText hdoc htext
    exact ⟨ids, by rw [htokens, hencode]; rfl, hrouted ids hcall⟩

end Standard

/-! ## Templates that tell the calls apart -/

/-- The options of the calculators: with a generation prompt, and without what the router adds for
DeepSeek V4. -/
def TemplateCall.FromCalculator (call : TemplateCall) : Prop :=
  call.kwargs.contains "add_generation_prompt" = true ∧ call.kwargs.contains "drop_thinking" = false

open Classical in
/-- Some calls are answered by the text with all tools, and the others in another way. -/
noncomputable def answering (answered : TemplateCall → Prop) (text : List Char)
    (otherwise : Except TokenizerError String) : TemplateCall → Except TokenizerError String :=
  fun call => if answered call then .ok (String.ofList text) else otherwise

/-- The calls of a calculator that knows no `return_dict`. -/
def WithoutReturnDict (call : TemplateCall) : Prop :=
  call.FromCalculator ∧ call.kwargs.contains "return_dict" = false

/-- The calls of the calculator for these messages and tools. -/
def CallsFor (isDsv4 : Bool) (messages : List Json) (tools : Option (List Json)) (call : TemplateCall) :
    Prop :=
  call.FromCalculator ∧ call.conversation = messages ∧ (isDsv4 = true → call.tools = tools)

section Probes

variable {loads : String → Option Json} {m : TokenizerManager} {req : ChatRequest} {blockSize : ℤ}
  {isDsv4 : Bool} {messages : List Json} {tools : Option (List Json)} {target : EditTarget}
  {answered : TemplateCall → Prop} {otherwise : Except TokenizerError String} {ids : List ℤ}
  {text : List Char} {call : TemplateCall} {rendered : Rendered}

theorem apply_of_answered (h : answered call) : (probe isDsv4 ids text
    (answering answered text otherwise)).applyChatTemplate call =
      .ok (if call.tokenizes then .ids (probeEncode ids (String.ofList text))
        else .text (String.ofList text)) := by
  simp only [probe, answering, if_pos h]
  rfl

theorem apply_of_not_answered (h : ¬answered call) : (probe isDsv4 ids text
    (answering answered text otherwise)).applyChatTemplate call =
      otherwise.map fun s => if call.tokenizes then .ids (probeEncode ids s) else .text s := by
  simp only [probe, answering, if_neg h]

theorem fromCalculator_tableKwargs (tokenize : Bool) :
    (⟨messages, tools, Tokenizer.tableKwargs tokenize⟩ : TemplateCall).FromCalculator := by
  constructor <;> rfl

theorem fromCalculator_returnDict (tokenize : Bool) :
    (⟨messages, tools, (Tokenizer.tableKwargs tokenize).insert "return_dict" (.bool false)⟩ :
      TemplateCall).FromCalculator := by
  constructor <;> rfl

/-- The calculators call again without `return_dict`. -/
theorem answers_withoutReturnDict (isDsv4 : Bool) (messages : List Json) (tools : Option (List Json)) :
    Answers isDsv4 messages tools
      (answering WithoutReturnDict (probeText tools) (.error .typeError)) := by
  have hrender (tools' : Option (List Json)) (tokenize : Bool) :
      (probe isDsv4 (probeIds messages.length) (probeText tools) (answering WithoutReturnDict
        (probeText tools) (.error .typeError))).renderForTable messages tools' tokenize =
          .ok (if tokenize then .ids (probeIds messages.length)
            else .text (String.ofList (probeText tools))) := by
    rw [Tokenizer.renderForTable, apply_of_not_answered (fun h => by cases h.2)]
    simp only [Except.map]
    rw [apply_of_answered ⟨fromCalculator_tableKwargs tokenize, rfl⟩, probeEncode, probeText,
      probeMarker_brace]
    cases tokenize <;> rfl
  exact ⟨hrender tools, fun _ tool => hrender (some [tool]) false⟩

theorem answers_callsFor (isDsv4 : Bool) (messages : List Json) (tools : Option (List Json)) :
    Answers isDsv4 messages tools (answering (CallsFor isDsv4 messages tools) (probeText tools)
      (.ok "<|im_start|>")) := by
  have hrender (tools' : Option (List Json)) (htools : isDsv4 = true → tools' = tools) (tokenize : Bool) :
      (probe isDsv4 (probeIds messages.length) (probeText tools) (answering (CallsFor isDsv4 messages tools)
        (probeText tools) (.ok "<|im_start|>"))).renderForTable messages tools' tokenize =
          .ok (if tokenize then .ids (probeIds messages.length)
            else .text (String.ofList (probeText tools))) := by
    rw [Tokenizer.renderForTable, apply_of_answered ⟨fromCalculator_returnDict tokenize, rfl, htools⟩,
      probeEncode, probeText, probeMarker_brace]
    cases tokenize <;> rfl
  refine ⟨hrender tools fun _ => rfl, fun hstandard tool => hrender (some [tool]) (fun h => ?_) false⟩
  rw [hstandard] at h
  cases h

/-- A template that renders all other calls to one marker is as documented. -/
theorem documented_callsFor : (probe isDsv4 ids (probeText tools) (answering
    (CallsFor isDsv4 messages tools) (probeText tools) (.ok "<|im_start|>"))).Documented := by
  refine ⟨fun conversation tools' kwargs h => ?_, fun conversation tools' kwargs kwargs' text hfalse htrue
    _ hkeys h => ?_⟩
  · by_cases hcall : CallsFor isDsv4 messages tools
        ⟨conversation, tools', kwargs.insert "return_dict" (.bool false)⟩
    · rw [apply_of_answered hcall] at h
      cases h
    · rw [apply_of_not_answered hcall] at h
      cases h
  · have hsame : CallsFor isDsv4 messages tools ⟨conversation, tools', kwargs⟩ ↔
        CallsFor isDsv4 messages tools ⟨conversation, tools', kwargs'⟩ := by
      simp only [CallsFor, TemplateCall.FromCalculator, Dict.contains,
        hkeys "add_generation_prompt" (by decide), hkeys "drop_thinking" (by decide)]
    have hnot : (⟨conversation, tools', kwargs⟩ : TemplateCall).tokenizes = false := by
      simp only [TemplateCall.tokenizes, hfalse]
    have htokens : (⟨conversation, tools', kwargs'⟩ : TemplateCall).tokenizes = true := by
      simp only [TemplateCall.tokenizes, htrue]
    refine ⟨probeEncode ids text, rfl, ?_⟩
    by_cases hcall : CallsFor isDsv4 messages tools ⟨conversation, tools', kwargs⟩
    · rw [apply_of_answered hcall, hnot] at h
      rw [apply_of_answered (hsame.mp hcall), htokens]
      cases h
      rfl
    · rw [apply_of_not_answered hcall, hnot] at h
      rw [apply_of_not_answered fun h => hcall (hsame.mpr h), htokens]
      cases h
      rfl

/-! ## What is routed then -/

theorem contains_dropThinking (req : ChatRequest) :
    (buildDsv4ChatTemplateKwargs req).contains "drop_thinking" = true := by
  have hinsert (kwargs : Dict String Json) (key : String) (j : Json)
      (h : kwargs.contains "drop_thinking" = true) :
      (kwargs.insert key j).contains "drop_thinking" = true := Dict.contains_insert.mpr (Or.inr h)
  have hoptions (kwargs : Dict String Json) (fields : List (String × Json))
      (h : kwargs.contains "drop_thinking" = true) :
      (fields.foldl (fun kwargs field => kwargs.insert field.1 field.2) kwargs).contains
        "drop_thinking" = true := (Dict.contains_foldl_insert _ _).mpr (Or.inl h)
  have hthinking (kwargs : Dict String Json) (j : Json) (h : kwargs.contains "drop_thinking" = true) :
      (if kwargs.contains "enable_thinking" then kwargs
        else kwargs.insert "enable_thinking" j).contains "drop_thinking" = true := by
    split
    · exact h
    · exact hinsert _ _ _ h
  have hstart : (((∅ : Dict String Json).insert "tokenize" (.bool true)).insert "drop_thinking"
      (.bool true)).contains "drop_thinking" = true := rfl
  unfold buildDsv4ChatTemplateKwargs
  simp only
  split
  · split
    · exact hoptions _ _ hstart
    · exact hstart
  · apply hthinking
    split
    · apply hoptions
      split
      · exact hstart
      · exact hinsert _ _ _ hstart
    · split
      · exact hstart
      · exact hinsert _ _ _ hstart

/-- The calls that are not answered raise, or are rendered to a marker. -/
def Elsewhere (otherwise : Except TokenizerError String) : Prop :=
  otherwise = .error .typeError ∨ otherwise = .ok "<|im_start|>"

theorem rendered_of_not_answered (hother : Elsewhere otherwise) (h : ¬answered call)
    (hrendered : ((probe isDsv4 ids text (answering answered text otherwise)).applyChatTemplate
      call).toOption = some rendered) :
    rendered = if call.tokenizes then .ids [4] else .text "<|im_start|>" := by
  rw [apply_of_not_answered h] at hrendered
  rcases hother with rfl | rfl
  · cases hrendered
  · cases hrendered
    rfl

theorem encodeRendered_marker (addSpecialTokens : Bool)
    (hm : m.tokenizer = probe isDsv4 ids text (answering answered text otherwise)) :
    m.encodeRendered addSpecialTokens (.text "<|im_start|>") = some (.ids [4]) := by
  rw [TokenizerManager.encodeRendered, hm]
  rfl

/-- The router for DeepSeek V4 has an option of its own. -/
theorem routed_dsv4 (hother : Elsewhere otherwise)
    (hm : m.tokenizer = probe isDsv4 ids text (answering answered text otherwise))
    (hanswered : ∀ call, answered call → call.FromCalculator)
    (h : m.applyChatTemplateDsv4 loads req = some rendered) : rendered = .ids [4] := by
  simp only [TokenizerManager.applyChatTemplateDsv4, Option.bind_eq_bind, Option.bind_eq_some_iff] at h
  obtain ⟨⟨messages, tools⟩, -, h⟩ := h
  split at h
  · cases h
  · obtain ⟨outcome, houtcome, h⟩ := Option.bind_eq_some_iff.mp h
    have hnot : ¬answered ⟨messages, tools, buildDsv4ChatTemplateKwargs req⟩ := fun h => by
      have hdrop := (hanswered _ h).2
      rw [contains_dropThinking] at hdrop
      cases hdrop
    rw [hm] at houtcome
    obtain rfl := rendered_of_not_answered hother hnot houtcome
    cases htokens : (⟨messages, tools, buildDsv4ChatTemplateKwargs req⟩ : TemplateCall).tokenizes with
    | true =>
      rw [htokens] at h
      cases h
      rfl
    | false =>
      rw [htokens] at h
      exact (Option.some.inj ((encodeRendered_marker false hm).symm.trans h)).symm

theorem routed_withPreprocess (hother : Elsewhere otherwise)
    (hm : m.tokenizer = probe isDsv4 ids text (answering answered text otherwise))
    (hanswered : ∀ call, answered call → call.FromCalculator)
    (h : m.applyChatTemplateWithPreprocess loads req = some rendered) : rendered = .ids [4] := by
  simp only [TokenizerManager.applyChatTemplateWithPreprocess, Option.bind_eq_bind,
    Option.bind_eq_some_iff] at h
  obtain ⟨⟨messages, tools⟩, -, prompt, hprompt, h⟩ := h
  rw [hm] at hprompt
  obtain rfl := rendered_of_not_answered hother (fun h => by cases (hanswered _ h).1) hprompt
  have hencode := encodeRendered_marker true hm
  exact (Option.some.inj (hencode.symm.trans h)).symm

theorem routed_standard (hother : Elsewhere otherwise)
    (hm : m.tokenizer = probe isDsv4 ids text (answering answered text otherwise))
    (hnot : ∀ messages, preprocessMessagesForStandard req.messages = some messages →
      ¬answered ⟨messages, req.tools, standardKwargs⟩)
    (h : m.applyChatTemplateStandard req = some rendered) : rendered = .ids [4] := by
  simp only [TokenizerManager.applyChatTemplateStandard, Option.bind_eq_bind,
    Option.bind_eq_some_iff] at h
  obtain ⟨messages, hmessages, h⟩ := h
  rw [hm] at h
  exact rendered_of_not_answered hother (hnot messages hmessages) h

theorem withPreprocess_eq_none_iff (hm : m.tokenizer = probe isDsv4 ids text (answering answered text
    (.ok "<|im_start|>"))) (hanswered : ∀ call, answered call → call.FromCalculator) :
    m.applyChatTemplateWithPreprocess loads req = none ↔
      TokenizerManager.preprocessPrompt loads req = none := by
  unfold TokenizerManager.applyChatTemplateWithPreprocess
  cases TokenizerManager.preprocessPrompt loads req with
  | none => simp
  | some prompt =>
    obtain ⟨messages, tools⟩ := prompt
    have hcall : m.tokenizer.applyChatTemplate
        ⟨messages, tools, (∅ : Dict String Json).insert "tokenize" (.bool false)⟩ =
          .ok (.text "<|im_start|>") := by
      rw [hm, apply_of_not_answered fun h => by cases (hanswered _ h).1]
      rfl
    simp only [Option.bind_eq_bind, Option.bind_some, hcall, Except.toOption,
      encodeRendered_marker true hm, reduceCtorEq]

theorem ensureTokenIds_of_routed
    (hdsv4 : ∀ rendered, m.applyChatTemplateDsv4 loads req = some rendered → rendered = .ids [4])
    (hpreprocess : ∀ rendered, m.applyChatTemplateWithPreprocess loads req = some rendered →
      rendered = .ids [4])
    (hstandard : m.isDsv4 = false → m.openaiStandard = "STANDARD" ∨
        m.applyChatTemplateWithPreprocess loads req = none →
      ∀ rendered, m.applyChatTemplateStandard req = some rendered → rendered = .ids [4]) :
    m.ensureTokenIds loads req = .ids [] ∨ m.ensureTokenIds loads req = .ids [4] := by
  have hgetD (o : Option Rendered) (default : Rendered) (ho : ∀ rendered, o = some rendered →
      rendered = .ids [4]) (hdefault : o = none → default = .ids [] ∨ default = .ids [4]) :
      o.getD default = .ids [] ∨ o.getD default = .ids [4] := by
    cases o with
    | none => exact hdefault rfl
    | some rendered => exact Or.inr (ho rendered rfl)
  unfold TokenizerManager.ensureTokenIds TokenizerManager.applyChatTemplate
  split
  · exact hgetD _ _ hdsv4 fun _ => Or.inl rfl
  · next hisDsv4 =>
    have hstandard := hstandard (Bool.eq_false_of_not_eq_true hisDsv4)
    split
    · exact hgetD _ _ hpreprocess fun hnone =>
        hgetD _ _ (hstandard (Or.inr hnone)) fun _ => Or.inl rfl
    · next hopenai =>
      have hstandard := hstandard (Or.inl (not_not.mp hopenai))
      exact hgetD _ _ hstandard fun _ => hgetD _ _ hstandard fun _ => Or.inl rfl

/-- A probe whose tokens are not routed has offsets that do not follow. -/
theorem not_offsetsFollow {template : TemplateCall → Except TokenizerError String} {hint : AgentHint}
    (hanswers : Answers isDsv4 messages tools template)
    (hm : m.tokenizer = probe isDsv4 (probeIds messages.length) (probeText tools) template)
    (hhint : req.agentHint = some hint) (hneeds : hint.needsTables = true) (hbs : 0 < blockSize)
    (hpre : calculatorPreprocess loads isDsv4 req.messages req.tools = some (messages, tools))
    (haddress : hint.Addresses messages.length target) (htab : Tabulable isDsv4 messages tools target)
    (hrouted : m.ensureTokenIds loads req = .ids [] ∨ m.ensureTokenIds loads req = .ids [4]) :
    ¬OffsetsFollow loads m req blockSize := by
  intro hfollow
  obtain ⟨t, bo, htables, htable, hattached, htokens⟩ :=
    exists_attached_of_answers hanswers hbs hpre haddress htab
  rw [← hm] at htables htokens
  obtain ⟨ids, hids, hroute⟩ := hfollow hint t target bo hhint hneeds htables htable hattached
  obtain rfl := Option.some.inj (htokens.symm.trans hids)
  rw [hroute] at hrouted
  have hlen : 4 ≤ (probeIds messages.length).length := by
    simp only [probeIds, List.length_append, List.length_replicate]
    omega
  rcases hrouted with h | h
  · rw [Rendered.ids.inj h] at hlen
    exact absurd hlen (by decide)
  · rw [Rendered.ids.inj h] at hlen
    exact absurd hlen (by decide)

end Probes

/-! ## When offsets follow -/

variable {loads : String → Option Json} {m : TokenizerManager} {req : ChatRequest} {blockSize : ℤ}
  {target : EditTarget}

theorem offsetsFollow_of_not_attachable
    (h : ∀ target, ¬Attachable loads m.tokenizer.isDsv4 req blockSize target) :
    OffsetsFollow loads m req blockSize := by
  intro hint t target bo hhint hneeds htables htable hattached
  obtain ⟨hpre, hmessages, -⟩ := offsetTables_eq_some_iff.mp htables
  obtain ⟨hbs, haddress⟩ := OffsetTables.addresses_of_attached (fun table htable => by
    rw [htable] at hmessages
    exact (tabulable_messages hmessages).2) hattached
  exact absurd ⟨hbs, hint, t.messages, t.tools, hhint, hneeds, hpre, haddress,
    tabulable_of_table htables htable⟩ (h target)

theorem exists_not_follow (h : Attachable loads m.tokenizer.isDsv4 req blockSize target) :
    ∃ tok : Tokenizer, tok.isDsv4 = m.tokenizer.isDsv4 ∧
      ¬OffsetsFollow loads { m with tokenizer := tok } req blockSize := by
  obtain ⟨hbs, hint, messages, tools, hhint, hneeds, hpre, haddress, htab⟩ := h
  refine ⟨probe _ (probeIds messages.length) (probeText tools) (answering WithoutReturnDict
    (probeText tools) (.error .typeError)), rfl, ?_⟩
  have hfrom (call : TemplateCall) (h : WithoutReturnDict call) : call.FromCalculator := h.1
  refine not_offsetsFollow (answers_withoutReturnDict _ messages tools) rfl hhint hneeds hbs hpre
    haddress htab (ensureTokenIds_of_routed (fun r => routed_dsv4 (Or.inl rfl) rfl hfrom)
      (fun r => routed_withPreprocess (Or.inl rfl) rfl hfrom) fun _ _ r =>
        routed_standard (Or.inl rfl) rfl ?_)
  exact fun _ _ h => by cases h.2

/-- A template as documented may tell the call of the calculator from the one of the router, unless it
is the same one. -/
theorem exists_documented_not_follow (h : Attachable loads m.tokenizer.isDsv4 req blockSize target)
    (hdiffer : ¬(m.StandardPath loads req ∧ RendersAlike loads m.tokenizer.isDsv4 req)) :
    ∃ tok : Tokenizer, tok.isDsv4 = m.tokenizer.isDsv4 ∧ tok.Documented ∧
      ¬OffsetsFollow loads { m with tokenizer := tok } req blockSize := by
  obtain ⟨hbs, hint, messages, tools, hhint, hneeds, hpre, haddress, htab⟩ := h
  refine ⟨probe _ (probeIds messages.length) (probeText tools) (answering
    (CallsFor m.tokenizer.isDsv4 messages tools) (probeText tools) (.ok "<|im_start|>")), rfl,
    documented_callsFor, ?_⟩
  have hfrom (call : TemplateCall) (h : CallsFor m.tokenizer.isDsv4 messages tools call) :
      call.FromCalculator := h.1
  refine not_offsetsFollow (answers_callsFor _ messages tools) rfl hhint hneeds hbs hpre haddress htab
    (ensureTokenIds_of_routed (fun r => routed_dsv4 (Or.inr rfl) rfl hfrom)
      (fun r => routed_withPreprocess (Or.inr rfl) rfl hfrom) fun hdsv4 hpath r =>
        routed_standard (Or.inr rfl) rfl ?_)
  have hstandard : m.StandardPath loads req :=
    ⟨hdsv4, hpath.imp id (withPreprocess_eq_none_iff rfl hfrom).mp⟩
  rintro messages' hmessages' ⟨-, rfl, htools⟩
  refine hdiffer ⟨hstandard, ?_⟩
  rw [RendersAlike, hpre, hmessages', Option.map_some]
  cases hcalculator : m.tokenizer.isDsv4 with
  | true => rw [← htools hcalculator]
  | false =>
    rw [hcalculator] at hpre
    cases hpre
    rfl

/-- **For an arbitrary template, offsets follow only where there are none; for one as documented, also
where the router makes the call of the calculator.** -/
theorem offsets_follow_routed_iff (loads : String → Option Json) (m : TokenizerManager)
    (req : ChatRequest) (blockSize : ℤ) :
    ((∀ tok : Tokenizer, tok.isDsv4 = m.tokenizer.isDsv4 →
        OffsetsFollow loads { m with tokenizer := tok } req blockSize) ↔
      ∀ target, ¬Attachable loads m.tokenizer.isDsv4 req blockSize target) ∧
    ((∀ tok : Tokenizer, tok.isDsv4 = m.tokenizer.isDsv4 → tok.Documented →
        OffsetsFollow loads { m with tokenizer := tok } req blockSize) ↔
      (∃ target, Attachable loads m.tokenizer.isDsv4 req blockSize target) →
        m.StandardPath loads req ∧ RendersAlike loads m.tokenizer.isDsv4 req) := by
  have hnothing (tok : Tokenizer) (hcalculator : tok.isDsv4 = m.tokenizer.isDsv4)
      (h : ∀ target, ¬Attachable loads m.tokenizer.isDsv4 req blockSize target) :
      OffsetsFollow loads { m with tokenizer := tok } req blockSize :=
    offsetsFollow_of_not_attachable fun target => by
      rw [hcalculator]
      exact h target
  refine ⟨⟨fun h target hattach => ?_, fun h tok hcalculator => hnothing tok hcalculator h⟩,
    ⟨fun h ⟨target, hattach⟩ => ?_, fun h tok hcalculator hdoc => ?_⟩⟩
  · obtain ⟨tok, hcalculator, hnot⟩ := exists_not_follow hattach
    exact hnot (h tok hcalculator)
  · by_contra hdiffer
    obtain ⟨tok, hcalculator, hdoc, hnot⟩ := exists_documented_not_follow hattach hdiffer
    exact hnot (h tok hcalculator hdoc)
  · by_cases hattach : ∃ target, Attachable loads m.tokenizer.isDsv4 req blockSize target
    · obtain ⟨hpath, halike⟩ := h hattach
      exact offsetsFollow_of_rendersAlike hdoc hpath (by rw [hcalculator]; exact halike)
    · exact hnothing tok hcalculator fun target htarget => hattach ⟨target, htarget⟩

/-! ## A content of two parts -/

/-- The content is gone through part by part; every text is one token, its length. -/
def partTokens (message : Json) : List ℤ :=
  match message.get? "content" with
  | some (.str s) => [(s.length : ℤ)]
  | some (.arr parts) => parts.flatMap fun part =>
    match part.get? "text" with
    | some (.str s) => [(s.length : ℤ)]
    | _ => []
  | _ => []

/-- Each message is opened by the marker, and so is the answer. -/
def partsTokenizer : Tokenizer where
  isDsv4 := false
  applyChatTemplate call :=
    .ok (.ids (call.conversation.flatMap (fun message => 1 :: partTokens message) ++ [1]))
  convertTokensToIds s := .ok (if s = "<|im_start|>" then some 1 else none)
  unkTokenId := none
  encode s _ := .ok (if s = "<|im_start|>" then [1] else [(s.length : ℤ)])
  decode _ := .ok .other

def partsManager : TokenizerManager := ⟨partsTokenizer, false, "STANDARD"⟩

/-- The one message is to be evicted. -/
def twoPartsRequest : ChatRequest where
  messages := [.obj [("role", .str "user"), ("content", .arr
    [.obj [("type", .str "text"), ("text", .str "Hi")],
      .obj [("type", .str "text"), ("text", .str "you")]])]]
  tools := none
  reasoningEffort := .null
  chatTemplateKwargs := .null
  agentHint := some ⟨some "session", none, some ⟨true, [⟨.evict, some 0, some 1, .messages⟩]⟩⟩

/-- The parts are joined to one text for the router, and left apart for the offsets. -/
theorem twoParts_not_follow :
    partsManager.ensureTokenIds (fun _ => none) twoPartsRequest = .ids [1, 6, 1] ∧
    (partsTokenizer.offsetTables (fun _ => none) twoPartsRequest).bind
      (partsTokenizer.tokensOf · .messages) = some [1, 2, 3, 1] ∧
    ¬OffsetsFollow (fun _ => none) partsManager twoPartsRequest 128 := by
  have hrouted : partsManager.ensureTokenIds (fun _ => none) twoPartsRequest = .ids [1, 6, 1] := by decide
  have htables : partsTokenizer.offsetTables (fun _ => none) twoPartsRequest =
      some ⟨twoPartsRequest.messages, none, some [3], none⟩ := by rfl
  refine ⟨hrouted, by rw [htables]; decide, fun hfollow => ?_⟩
  obtain ⟨ids, hids, hroute⟩ := hfollow _ _ .messages ⟨0, 0, 0⟩ rfl (by decide) htables
    (Option.some_ne_none _) (by decide)
  have htokens : partsTokenizer.tokensOf ⟨twoPartsRequest.messages, none, some [3], none⟩ .messages =
      some [1, 2, 3, 1] := by decide
  obtain rfl := Option.some.inj (htokens.symm.trans hids)
  rw [hrouted] at hroute
  exact absurd hroute (by decide)

end PyMotor.Coordinator
