import PyMotor.Coordinator.BlockOffset.RoutedTokens

/-!
# Tokenizers with which offsets are attached

Whatever a request may get offsets for, there are tokenizers with which it gets them
(`exists_attached_of_answers`). All texts but the markers have the same tokens, with as many markers of each
kind as are needed; and the text in which tools are located shows all of them. How the chat template
answers the calls of the router is left open: only the calls of the calculators matter here.
-/

namespace PyMotor.Coordinator

/-! ## Scans that succeed -/

namespace Dsv4

variable {userPos asstPos eosPos : List ℕ} {messages : List Json} {u a e : ℕ}

/-- With a marker of each kind for every message, all messages end somewhere. -/
theorem exists_scan (hknown : (messages.all fun msg => decide (markerRole msg ≠ .unknown)) = true)
    (hasst : a + messages.length ≤ asstPos.length) (heos : e + messages.length ≤ eosPos.length)
    (huserPos : ∀ p ∈ userPos, 0 < p) (hasstPos : ∀ p ∈ asstPos, 0 < p) :
    ∃ table, scan userPos asstPos eosPos u a e messages = some table ∧ ∀ n ∈ table, 0 < n := by
  induction messages generalizing u a e with
  | nil => exact ⟨[], rfl, fun n hn => by cases hn⟩
  | cons msg messages ih =>
    rw [List.all_cons, Bool.and_eq_true, decide_eq_true_eq] at hknown
    rw [List.length_cons] at hasst heos
    rw [scan]
    split
    · -- the cursor for assistants goes on at most by one
      have hend : ∃ p a', userLikeEnd userPos asstPos u a = some (p, a') ∧ a' ≤ a + 1 ∧ 0 < p := by
        have ha : a < asstPos.length := by omega
        have hp := hasstPos _ (List.getElem_mem ha)
        rw [userLikeEnd, List.getElem?_eq_getElem ha]
        cases hnext : userPos[u + 1]? with
        | none => exact ⟨_, _, rfl, Nat.le_refl _, hp⟩
        | some nextUser =>
          simp only
          split
          · exact ⟨_, _, rfl, Nat.le_refl _, hp⟩
          · exact ⟨_, _, rfl, Nat.le_succ a, huserPos _ (List.mem_of_getElem? hnext)⟩
      obtain ⟨p, a', hend, ha', hp⟩ := hend
      obtain ⟨rest, hrest, hpos⟩ := ih (u := u + 1) (a := a') (e := e) hknown.2 (by omega) (by omega)
      refine ⟨p :: rest, by simp [hend, hrest], ?_⟩
      exact List.forall_mem_cons.mpr ⟨hp, hpos⟩
    · have he : e < eosPos.length := by omega
      obtain ⟨rest, hrest, hpos⟩ := ih (u := u) (a := a) (e := e + 1) hknown.2 (by omega) (by omega)
      refine ⟨(eosPos[e] + 1) :: rest, by simp [List.getElem?_eq_getElem he, hrest], ?_⟩
      exact List.forall_mem_cons.mpr ⟨Nat.succ_pos _, hpos⟩
    · next hrole => exact absurd hrole hknown.1

theorem exists_scanAll_of_known (hknown : rolesKnown messages = true)
    (huser : messages.length ≤ userPos.length) (hasst : messages.length ≤ asstPos.length)
    (heos : messages.length ≤ eosPos.length) (huserPos : ∀ p ∈ userPos, 0 < p)
    (hasstPos : ∀ p ∈ asstPos, 0 < p) :
    ∃ table, scanAll userPos asstPos eosPos messages = some table ∧ ∀ n ∈ table, 0 < n := by
  cases messages with
  | nil => exact ⟨[], rfl, fun n hn => by cases hn⟩
  | cons msg messages =>
    rw [rolesKnown, Bool.and_eq_true, Bool.or_eq_true] at hknown
    rw [scanAll]
    split
    · rw [List.length_cons] at huser hasst heos
      have hu : 0 < userPos.length := by omega
      have hscan : ∃ rest, scan userPos asstPos eosPos 1 0 0 messages = some rest ∧ ∀ n ∈ rest, 0 < n :=
        exists_scan hknown.2 (by omega) (by omega) huserPos hasstPos
      obtain ⟨rest, hrest, hpos⟩ := hscan
      refine ⟨userPos[0] :: rest, by simp [List.getElem?_eq_getElem hu, hrest], ?_⟩
      exact List.forall_mem_cons.mpr ⟨huserPos _ (List.getElem_mem hu), hpos⟩
    · next hsystem =>
      refine exists_scan ?_ (by omega) (by omega) huserPos hasstPos
      rw [List.all_cons, Bool.and_eq_true]
      exact ⟨hknown.1.resolve_left hsystem, hknown.2⟩

end Dsv4

/-! ## Token positions -/

/-- Where all prefixes have equally many tokens, the positions are in order. -/
theorem tokenPositions_of_encode {tok : Tokenizer} {full : List Char} {ids : List ℤ}
    (hencode : ∀ cp, tok.encode (String.ofList (full.take cp)) false = .ok ids) (charPositions : List ℕ) :
    tokenPositions tok full charPositions = some (charPositions.map fun _ => ids.length) := by
  have hprefixes : (charPositions.mapM fun cp => tok.encode (String.ofList (full.take cp)) false) =
      .ok (charPositions.map fun _ => ids) := by
    simp only [hencode]
    exact List.mapM_pure
  have hchain : (charPositions.map fun _ => ids.length).IsChain (· ≤ ·) := by
    refine List.Pairwise.isChain (List.pairwise_map.mpr ?_)
    exact List.pairwise_of_forall fun _ _ => Nat.le_refl ids.length
  simp only [tokenPositions, hprefixes, List.map_map, Function.comp_def, if_pos hchain]

/-! ## The probe -/

/-- Whether tokens are asked for, which is the default. -/
def TemplateCall.tokenizes (call : TemplateCall) : Bool :=
  match call.kwargs.get? "tokenize" with
  | some (.bool false) => false
  | _ => true

/-- One marker of each kind for every message, and one more. -/
def probeIds (count : ℕ) : List ℤ :=
  List.replicate (count + 1) 4 ++ List.replicate (count + 1) 1 ++ List.replicate (count + 1) 2 ++
    List.replicate (count + 1) 3

/-- All tools, behind a brace. -/
def probeText (tools : Option (List Json)) : List Char := '\x7b' :: toolsText (tools.getD [])

/-- The id of a marker. -/
def probeMarker (s : String) : Option ℤ :=
  if s = "<|im_start|>" then some 4
  else if s = Dsv4.userMarker then some 1
  else if s = Dsv4.assistantMarker then some 2
  else if s = Dsv4.eosMarker then some 3
  else none

/-- Every text that is no marker has the same tokens. -/
def probeEncode (ids : List ℤ) (s : String) : List ℤ := (probeMarker s).elim ids fun id => [id]

/-- The template renders a call to a text, or it raises. -/
def probe (isDsv4 : Bool) (ids : List ℤ) (text : List Char)
    (template : TemplateCall → Except TokenizerError String) : Tokenizer where
  isDsv4 := isDsv4
  applyChatTemplate call := (template call).map fun s =>
    if call.tokenizes then .ids (probeEncode ids s) else .text s
  convertTokensToIds s := .ok (probeMarker s)
  unkTokenId := none
  encode s _ := .ok (probeEncode ids s)
  decode _ := .ok (.text (String.ofList text))

section Probe

variable {isDsv4 : Bool} {ids : List ℤ} {text : List Char} {count : ℕ}
  {template : TemplateCall → Except TokenizerError String} {messages : List Json}
  {tools : Option (List Json)}

theorem tryGetTokenId_probe {s : String} {id : ℤ} (h : probeMarker s = some id) :
    (probe isDsv4 ids text template).tryGetTokenId s = some id := by
  simp [Tokenizer.tryGetTokenId, probe, probeEncode, h]

theorem probeMarker_brace (cs : List Char) : probeMarker (String.ofList ('\x7b' :: cs)) = none := by
  have hne (marker : String) (h : marker.toList.head? ≠ some '\x7b') :
      String.ofList ('\x7b' :: cs) ≠ marker := by
    rintro rfl
    rw [String.toList_ofList] at h
    exact h rfl
  unfold probeMarker
  rw [if_neg (hne _ (by decide)), if_neg (hne _ (by decide)), if_neg (hne _ (by decide)),
    if_neg (hne _ (by decide))]

theorem probeEncode_take (ids : List ℤ) (cs : List Char) (cp : ℕ) :
    probeEncode ids (String.ofList (('\x7b' :: cs).take cp)) = ids := by
  cases cp with
  | zero => rfl
  | succ cp => rw [List.take_succ_cons, probeEncode, probeMarker_brace, Option.elim_none]

theorem count_probeIds {id : ℤ} (h : id ∈ [1, 2, 3, 4]) (count : ℕ) :
    (probeIds count).count id = count + 1 := by
  rw [probeIds]
  simp only [List.mem_cons, List.not_mem_nil, or_false] at h
  rcases h with rfl | rfl | rfl | rfl <;> simp [List.count_append, List.count_replicate]

theorem pos_of_mem_idxsOf {id : ℤ} (h : id ≠ 4) : ∀ p ∈ (probeIds count).idxsOf id, 0 < p := by
  intro p hp
  refine Nat.pos_of_ne_zero ?_
  rintro rfl
  obtain ⟨hlen, hget⟩ := List.mem_idxsOf_iff_exists_getElem_pos.mp hp
  simp [probeIds, List.replicate_succ] at hget
  exact h hget.symm

/-! ## Tables of a probe -/

theorem Standard.buildMessagesOffsetTable_of_render {tok : Tokenizer} {markerId : ℤ} {rendered : Rendered}
    (hmarker : detectChatMarkerId tok = some markerId)
    (hrender : tok.renderForTable messages tools true = .ok rendered) :
    buildMessagesOffsetTable tok messages tools =
      .ok (if messages.isEmpty then none else tableOf messages.length markerId rendered) := by
  rw [buildMessagesOffsetTable]
  split
  · rfl
  · rw [Tokenizer.renderForTable] at hrender
    split at hrender
    · next hcall =>
      simp only [hmarker, hcall, hrender]
      rfl
    · simp only [hmarker, hrender]

theorem Standard.pos_of_mem_tableOf {markerId : ℤ} {rendered : Rendered} {table : List ℕ}
    (h : tableOf count markerId rendered = some table) : ∀ n ∈ table, 0 < n := by
  cases rendered with
  | text text => cases h
  | other => cases h
  | ids ids =>
    simp only [tableOf] at h
    split at h
    · cases h
    · next hne =>
      split at h
      · cases h
        intro n hn
        obtain ⟨i, -, rfl⟩ := List.mem_map.mp hn
        cases hnext : (ids.idxsOf markerId)[i + 1]? with
        | none => exact List.length_pos_iff.mpr (by simpa using hne)
        | some p =>
          have hlt := (List.getElem?_eq_some_iff.mp hnext).1
          have hfirst := List.getElem?_eq_getElem (show 0 < (ids.idxsOf markerId).length by omega)
          exact Nat.zero_lt_of_lt (idxsOf_lt_idxsOf hfirst hnext (Nat.succ_pos i))
      · cases h

theorem computeMessages_probe (hrender : (probe isDsv4 (probeIds messages.length) text
      template).renderForTable messages tools true = .ok (.ids (probeIds messages.length))) :
    ∃ outcome, (probe isDsv4 (probeIds messages.length) text template).computeMessages messages tools =
      .ok outcome ∧ (messages ≠ [] → (isDsv4 = true → Dsv4.rolesKnown messages = true) →
        ∃ table, outcome = some table ∧ ∀ n ∈ table, 0 < n) := by
  have hcount (id : ℤ) (h : id ∈ [1, 2, 3, 4]) : ((probeIds messages.length).idxsOf id).length =
      messages.length + 1 := List.length_idxsOf.trans (count_probeIds h _)
  unfold Tokenizer.computeMessages
  cases isDsv4 with
  | true =>
    refine ⟨_, if_pos rfl, fun hne hknown => ?_⟩
    have hscanned : Dsv4.scanned (probe true (probeIds messages.length) text template) messages tools =
        some ⟨3, 1, 2, probeIds messages.length⟩ := by
      have heos : probeMarker Dsv4.eosMarker = some 3 := by decide
      have huser : probeMarker Dsv4.userMarker = some 1 := by decide
      have hasst : probeMarker Dsv4.assistantMarker = some 2 := by decide
      have hids : (probeIds messages.length).isEmpty = false := by simp [probeIds]
      simp [Dsv4.scanned, tryGetTokenId_probe heos, tryGetTokenId_probe huser,
        tryGetTokenId_probe hasst, hrender, hids]
    obtain ⟨table, htable, hpos⟩ := Dsv4.exists_scanAll_of_known (hknown rfl)
      ((Nat.le_succ _).trans_eq (hcount 1 (by decide)).symm)
      ((Nat.le_succ _).trans_eq (hcount 2 (by decide)).symm)
      ((Nat.le_succ _).trans_eq (hcount 3 (by decide)).symm)
      (pos_of_mem_idxsOf (by decide)) (pos_of_mem_idxsOf (by decide))
    refine ⟨table, ?_, hpos⟩
    rw [Dsv4.buildMessagesOffsetTable, if_neg (by simpa using hne), hscanned]
    exact htable
  | false =>
    have hmarker : Standard.detectChatMarkerId (probe false (probeIds messages.length) text template) =
        some 4 := by
      have hstart : probeMarker "<|im_start|>" = some 4 := by decide
      simp [Standard.detectChatMarkerId, Standard.chatMarkerCandidates, tryGetTokenId_probe hstart]
    have htable := Standard.buildMessagesOffsetTable_of_render hmarker hrender
    refine ⟨_, (if_neg Bool.false_ne_true).trans htable, fun hne _ => ?_⟩
    have hsome : ∃ table, Standard.tableOf messages.length 4 (.ids (probeIds messages.length)) =
        some table := by
      simp only [Standard.tableOf]
      rw [if_neg (by simp [probeIds]), if_pos (Or.inl (hcount 4 (by decide)))]
      exact ⟨_, rfl⟩
    obtain ⟨table, htable⟩ := hsome
    rw [if_neg (by simpa using hne), htable]
    exact ⟨table, rfl, Standard.pos_of_mem_tableOf htable⟩

theorem Dsv4.buildToolsOffsetTable_of_render {tok : Tokenizer} {list : List Json} {full : List Char}
    (hne : list ≠ []) (hrender : tok.renderForTable messages (some list) true = .ok (.ids ids))
    (hids : ids ≠ []) (hdecode : tok.decode ids = .ok (.text (String.ofList full))) (hfull : full ≠ []) :
    buildToolsOffsetTable tok messages (some list) = (locateTools full 0 list).bind fun charPositions =>
      tokenPositions tok full (charPositions ++ [resolveToolsEndPos full charPositions]) := by
  obtain ⟨tool, rest, rfl⟩ := List.exists_cons_of_ne_nil hne
  simp only [buildToolsOffsetTable, hrender, hdecode, String.toList_ofList]
  rw [if_neg (by simpa using hids), if_neg (by simpa using hfull)]
  rfl

theorem Standard.buildToolsOffsetTable_of_render {tok : Tokenizer} {list : List Json} {full : List Char}
    (hne : list ≠ []) (hrender : tok.renderForTable messages (some list) false =
      .ok (.text (String.ofList full))) (hfull : full ≠ []) :
    buildToolsOffsetTable tok messages (some list) =
      (locateTools tok messages full 0 list).bind fun charPositions =>
        tokenPositions tok full (charPositions ++ [toolsEndPos full charPositions]) := by
  obtain ⟨tool, rest, rfl⟩ := List.exists_cons_of_ne_nil hne
  simp only [buildToolsOffsetTable, hrender, String.toList_ofList]
  rw [if_neg (by simpa using hfull)]
  rfl

theorem computeTools_probe {list : List Json} (hne : list ≠ [])
    (hnamed : ∀ tool ∈ list, toolName tool ≠ none) (hids : ids ≠ [])
    (hrender : ∀ tokenize, (probe isDsv4 ids (probeText (some list)) template).renderForTable messages
      (some list) tokenize = .ok (if tokenize then .ids ids
        else .text (String.ofList (probeText (some list)))))
    (halone : isDsv4 = false → ∀ tool, (probe isDsv4 ids (probeText (some list)) template).renderForTable
      messages (some [tool]) false = .ok (.text (String.ofList (probeText (some list))))) :
    ∃ table, (probe isDsv4 ids (probeText (some list)) template).computeTools messages (some list) =
      some table := by
  have hfull : probeText (some list) = ['\x7b'] ++ toolsText list ++ [] := by
    rw [List.append_nil]
    rfl
  have hpositions (charPositions : List ℕ) :
      tokenPositions (probe isDsv4 ids (probeText (some list)) template) (probeText (some list))
        charPositions = some (charPositions.map fun _ => ids.length) :=
    tokenPositions_of_encode (fun cp => congrArg Except.ok (probeEncode_take ids _ cp)) charPositions
  unfold Tokenizer.computeTools
  cases isDsv4 with
  | true =>
    obtain ⟨charPositions, hlocated⟩ := Dsv4.exists_locateTools hnamed hfull (Nat.zero_le _) rfl
    have hbuild := Dsv4.buildToolsOffsetTable_of_render hne (hrender true) hids rfl (List.cons_ne_nil _ _)
    rw [hlocated, Option.bind_some, hpositions] at hbuild
    exact ⟨_, (if_pos rfl).trans hbuild⟩
  | false =>
    obtain ⟨charPositions, hlocated⟩ := Standard.exists_locateTools hnamed (halone rfl) hfull
      (Nat.zero_le _) rfl
    have hbuild := Standard.buildToolsOffsetTable_of_render hne (hrender false) (List.cons_ne_nil _ _)
    rw [hlocated, Option.bind_some, hpositions] at hbuild
    exact ⟨_, (if_neg Bool.false_ne_true).trans hbuild⟩

end Probe

/-! ## Offsets of a probe -/

/-- The calls of the calculators are answered: all of them by the same tokens, or the same text. Tools
are rendered one by one only where they are located so. -/
structure Answers (isDsv4 : Bool) (messages : List Json) (tools : Option (List Json))
    (template : TemplateCall → Except TokenizerError String) : Prop where
  all : ∀ tokenize, (probe isDsv4 (probeIds messages.length) (probeText tools) template).renderForTable
    messages tools tokenize = .ok (if tokenize then .ids (probeIds messages.length)
      else .text (String.ofList (probeText tools)))
  alone : isDsv4 = false → ∀ tool,
    (probe isDsv4 (probeIds messages.length) (probeText tools) template).renderForTable messages
      (some [tool]) false = .ok (.text (String.ofList (probeText tools)))

section Attached

variable {isDsv4 : Bool} {messages : List Json} {tools : Option (List Json)}
  {template : TemplateCall → Except TokenizerError String} {loads : String → Option Json}
  {req : ChatRequest} {hint : AgentHint} {blockSize : ℤ} {target : EditTarget}

/-- Where the tokens are those of the text, it does not matter which of them a table is about. -/
theorem tokensOf_of_render {tok : Tokenizer} {t : OffsetTables} {ids : List ℤ} {text : String}
    (hids : tok.renderForTable t.messages t.tools true = .ok (.ids ids))
    (htext : tok.renderForTable t.messages t.tools false = .ok (.text text))
    (hencode : tok.encode text false = .ok ids) : tok.tokensOf t target = some ids := by
  unfold Tokenizer.tokensOf
  cases target with
  | session => simp only [hids]
  | messages => simp only [hids]
  | tools =>
    cases tok.isDsv4 with
    | true => simp only [hids]
    | false => simp only [htext, hencode, Except.toOption]

/-- **A probe that answers the calculators gets offsets**, for whatever they may be asked for. -/
theorem exists_attached_of_answers (h : Answers isDsv4 messages tools template) (hbs : 0 < blockSize)
    (hpre : calculatorPreprocess loads isDsv4 req.messages req.tools = some (messages, tools))
    (haddress : hint.Addresses messages.length target) (htab : Tabulable isDsv4 messages tools target) :
    ∃ t bo, (probe isDsv4 (probeIds messages.length) (probeText tools) template).offsetTables loads req =
        some t ∧ t.table target ≠ none ∧ (target, bo) ∈ t.attached hint blockSize ∧
      (probe isDsv4 (probeIds messages.length) (probeText tools) template).tokensOf t target =
        some (probeIds messages.length) := by
  obtain ⟨outcome, hmessages, hsome⟩ := computeMessages_probe (h.all true)
  generalize htoolsTable : (probe isDsv4 (probeIds messages.length) (probeText tools)
    template).computeTools messages tools = toolsTable
  have htables : (probe isDsv4 (probeIds messages.length) (probeText tools) template).offsetTables loads
      req = some ⟨messages, tools, outcome, toolsTable⟩ :=
    offsetTables_eq_some_iff.mpr ⟨hpre, hmessages, htoolsTable⟩
  have hattached : (⟨messages, tools, outcome, toolsTable⟩ : OffsetTables).table target ≠ none ∧
      ∃ bo, (target, bo) ∈ OffsetTables.attached ⟨messages, tools, outcome, toolsTable⟩ hint blockSize := by
    cases target with
    | session => exact False.elim htab
    | messages =>
      obtain ⟨table, rfl, hpos⟩ := hsome htab.1 htab.2
      refine ⟨Option.some_ne_none table, OffsetTables.exists_attached hbs haddress (fun _ => ?_)
        (fun h => by cases h) (by decide)⟩
      exact ⟨table, rfl, List.length_pos_iff.mpr htab.1, (tabulable_messages hmessages).2, hpos⟩
    | tools =>
      obtain ⟨hne, hnamed⟩ := htab
      cases tools with
      | none => exact absurd rfl hne
      | some list =>
        obtain ⟨table, htable⟩ := computeTools_probe hne hnamed (by simp [probeIds]) h.all h.alone
        obtain rfl := htoolsTable.symm.trans htable
        obtain ⟨-, list', heq, hlen⟩ := tabulable_tools htable
        cases heq
        exact ⟨Option.some_ne_none table, OffsetTables.exists_attached hbs haddress
          (fun h => by cases h) (fun _ => ⟨list, table, rfl, hne, rfl, hlen⟩) (by decide)⟩
  obtain ⟨hne, bo, hbo⟩ := hattached
  refine ⟨_, bo, htables, hne, hbo, ?_⟩
  refine tokensOf_of_render (h.all true) (h.all false) (congrArg Except.ok ?_)
  rw [probeEncode, probeText, probeMarker_brace, Option.elim_none]

end Attached

end PyMotor.Coordinator
