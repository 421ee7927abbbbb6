import PyMotor.Controller.FaultManager.Grouping

/-!
# The monitor of a node's faults

A monitor follows the faults that are listed for a node and passes on a list that has changed
(`controller/fault_tolerance/k8s/resource_monitor.py`). It keeps the last list that it passed on, and
compares by code, level and type: of a code that occurs several times the last entry counts.

The list kept is a shallow copy, and the entries that the fault manager stores are those of the list. So
a level that the fault manager adjusts is adjusted in the list as well; and of several entries of a code
the one stored is not the last, but the first with the highest level. As long as neither matters
(`Plain`), what the monitor keeps back is what is stored already.
-/

namespace PyMotor.Controller

open Coordinator (InstanceId EndpointId)

/-! ## Comparing lists -/

/-- `_build_dedup_dict`. -/
def buildDedupDict (infos : List FaultInfo) : Dict Int FaultInfo :=
  infos.foldl (fun d f => d.insert f.faultCode f) ∅

/-- What is compared of a fault. -/
def FaultInfo.look (f : FaultInfo) : FaultLevel × Option HardwareFaultType := (f.faultLevel, f.faultType)

def hasFaultInfoChanged (last : Option (List FaultInfo)) (infos : List FaultInfo) : Bool :=
  match last with
  | none => true
  | some last =>
    let newDict := buildDedupDict infos
    let lastDict := buildDedupDict last
    if newDict.keys.all lastDict.contains && lastDict.keys.all newDict.contains then
      newDict.entries.any fun p => decide ((lastDict.get? p.1).map FaultInfo.look ≠ some p.2.look)
    else true

/-- What a list says of a code. -/
def lookOf (infos : List FaultInfo) (code : Int) : Option (FaultLevel × Option HardwareFaultType) :=
  (entriesOf infos code).getLast?.map FaultInfo.look

theorem get?_buildDedupDict (infos : List FaultInfo) (code : Int) :
    (buildDedupDict infos).get? code = (entriesOf infos code).getLast? := by
  unfold buildDedupDict
  induction infos using List.reverseRecOn with
  | nil => rfl
  | append_singleton infos f ih =>
    rw [List.foldl_append, List.foldl_cons, List.foldl_nil, Dict.get?_insert, entriesOf_snoc]
    by_cases hcode : f.faultCode = code
    · rw [if_pos hcode, if_pos hcode, List.getLast?_concat]
    · rw [if_neg hcode, if_neg hcode, ih]

/-- Two lists count as equal if they say the same of every code. -/
theorem hasFaultInfoChanged_eq_false {last infos : List FaultInfo} :
    hasFaultInfoChanged (some last) infos = false ↔ ∀ code, lookOf infos code = lookOf last code := by
  have hlook (l : List FaultInfo) (code : Int) :
      lookOf l code = ((buildDedupDict l).get? code).map FaultInfo.look := by
    rw [get?_buildDedupDict, lookOf]
  simp only [hlook, hasFaultInfoChanged]
  generalize buildDedupDict infos = new
  generalize buildDedupDict last = old
  constructor
  · intro h code
    split at h
    · next hkeys =>
      rw [Bool.and_eq_true, List.all_eq_true, List.all_eq_true] at hkeys
      rw [List.any_eq_false] at h
      cases hnew : new.get? code with
      | some f =>
        have := h (code, f) (Dict.mem_entries_iff.mpr hnew)
        simp only [decide_eq_true_eq, not_not] at this
        exact this.symm
      | none =>
        cases hold : old.get? code with
        | none => rfl
        | some f =>
          obtain ⟨f', hf'⟩ := Dict.contains_iff.mp
            (hkeys.2 code (Dict.mem_keys_iff.mpr ⟨f, hold⟩))
          rw [hnew] at hf'
          cases hf'
    · cases h
  · intro h
    have hcontains {d d' : Dict Int FaultInfo}
        (hsame : ∀ code, (d.get? code).map FaultInfo.look = (d'.get? code).map FaultInfo.look) :
        d.keys.all d'.contains = true := by
      refine List.all_eq_true.mpr fun code hcode => ?_
      obtain ⟨f, hf⟩ := Dict.mem_keys_iff.mp hcode
      have := hsame code
      rw [hf] at this
      obtain ⟨f', hf', -⟩ := Option.map_eq_some_iff.mp this.symm
      exact Dict.contains_iff.mpr ⟨f', hf'⟩
    rw [if_pos (by rw [hcontains h, hcontains fun code => (h code).symm]; rfl), List.any_eq_false]
    rintro ⟨code, f⟩ hmem
    have := h code
    rw [Dict.mem_entries_iff.mp hmem] at this
    simp [← this]

/-! ## Entries that are stored -/

/-- The entry is the first with the highest level of its code. -/
def represents (before : List FaultInfo) (f : FaultInfo) (after : List FaultInfo) : Bool :=
  (before.all fun g => decide (g.faultCode = f.faultCode → g.faultLevel < f.faultLevel)) &&
    after.all fun g => decide (g.faultCode = f.faultCode → g.faultLevel ≤ f.faultLevel)

/-- The entries that are stored are changed where they are stored. -/
def rewriteStored (object : Int → Option FaultInfo) :
    List FaultInfo → List FaultInfo → List FaultInfo
  | _, [] => []
  | before, f :: after =>
    (if represents before f after then (object f.faultCode).getD f else f) ::
      rewriteStored object (before ++ [f]) after

theorem highestFault_split {before after : List FaultInfo} {f : FaultInfo}
    (hbefore : ∀ g ∈ before, g.faultLevel < f.faultLevel)
    (hafter : ∀ g ∈ after, g.faultLevel ≤ f.faultLevel) :
    highestFault (before ++ f :: after) = some f := by
  have htail : ∀ l : List FaultInfo, (∀ g ∈ l, g.faultLevel ≤ f.faultLevel) →
      l.foldl worse (some f) = some f := by
    intro l hl
    induction l with
    | nil => rfl
    | cons g l ih =>
      obtain ⟨hg, hl⟩ := List.forall_mem_cons.mp hl
      rw [List.foldl_cons, worse, if_neg (not_lt.mpr hg)]
      exact ih hl
  rw [highestFault, List.foldl_append, List.foldl_cons]
  have hf : worse (before.foldl worse none) f = some f := by
    cases hb : before.foldl worse none with
    | none => rfl
    | some b =>
      have := hbefore b (highestFault_eq_some hb).1
      rw [worse, if_pos this]
  rw [hf]
  exact htail after hafter

theorem highestFault_of_represents {before after : List FaultInfo} {f : FaultInfo}
    (h : represents before f after = true) :
    highestFault (entriesOf (before ++ f :: after) f.faultCode) = some f := by
  rw [represents, Bool.and_eq_true, List.all_eq_true, List.all_eq_true] at h
  have hentries : entriesOf (before ++ f :: after) f.faultCode =
      entriesOf before f.faultCode ++ f :: entriesOf after f.faultCode := by
    simp [entriesOf]
  rw [hentries]
  refine highestFault_split (fun g hg => ?_) fun g hg => ?_
  · obtain ⟨hmem, hcode⟩ := List.mem_filter.mp hg
    exact of_decide_eq_true (h.1 g hmem) (of_decide_eq_true hcode)
  · obtain ⟨hmem, hcode⟩ := List.mem_filter.mp hg
    exact of_decide_eq_true (h.2 g hmem) (of_decide_eq_true hcode)

/-- If what is stored looks like the entry it comes from, the list says what it said before. -/
theorem lookOf_rewriteStored {object : Int → Option FaultInfo} {infos : List FaultInfo}
    (hsame : ∀ code h f, highestFault (entriesOf infos code) = some h → object code = some f →
      f.faultCode = code ∧ f.look = h.look) (code : Int) :
    lookOf (rewriteStored object [] infos) code = lookOf infos code := by
  have hall : ∀ before after, before ++ after = infos →
      (rewriteStored object before after).map (fun f => (f.faultCode, f.look)) =
        after.map fun f => (f.faultCode, f.look) := by
    intro before after
    induction after generalizing before with
    | nil => exact fun _ => rfl
    | cons f after ih =>
      intro hinfos
      rw [rewriteStored, List.map_cons, List.map_cons, ih (before ++ [f]) (by simp [hinfos])]
      congr 1
      split
      · next hrep =>
        have hworst := highestFault_of_represents hrep
        rw [hinfos] at hworst
        cases hobject : object f.faultCode with
        | none => rfl
        | some g =>
          obtain ⟨hcode, hlook⟩ := hsame _ f g hworst hobject
          simp [hcode, hlook]
      · rfl
  have hlook (l : List FaultInfo) : lookOf l code =
      (((l.map fun f => (f.faultCode, f.look)).filter fun p => decide (p.1 = code)).map
        Prod.snd).getLast? := by
    rw [lookOf, List.filter_map, List.map_map, ← List.getLast?_map]
    rfl
  rw [hlook, hlook, hall [] infos rfl]

/-! ## The monitor -/

inductive ConfigmapEvent where
  /-- `ADDED` or `MODIFIED`, with the faults listed. -/
  | updated (infos : List FaultInfo)
  | deleted

structure MonitorState where
  domain : FaultDomain
  lastFaultInfos : Option (List FaultInfo)
  /-- The list of the last event, as it was then. -/
  previous : Option (List FaultInfo)

namespace FaultDomain

/-- The entry of the list that represents a code, after the list was handled: it is the one that is
stored, unless the node keeps another one under the code. -/
def storedObject (s s' : FaultDomain) (nodeName : String) (node : NodeMetadata) (infos : List FaultInfo)
    (code : Int) : Option FaultInfo :=
  if code = SpecialFaultCode.nodeReboot ∧ node.reboot ≠ none then
    storedFault (entriesOf infos code) (s.preSeparateLevel node)
  else (s'.faults.nodes.get? nodeName).bind fun node => node.hardwareFaultInfos.get? code

/-- The list after its entries were handled. -/
def handledList (s : FaultDomain) (σ : HashOrder InstanceId) (nodeName : String)
    (infos : List FaultInfo) : List FaultInfo :=
  match s.faults.nodes.get? nodeName with
  | none => infos
  | some node =>
    rewriteStored (s.storedObject (s.handleFaultInfoUpdate σ nodeName infos) nodeName node infos) [] infos

end FaultDomain

namespace MonitorState

def handleConfigmapChange (st : MonitorState) (σ : HashOrder InstanceId) (nodeName : String) :
    ConfigmapEvent → MonitorState
  | .updated infos =>
    if hasFaultInfoChanged st.lastFaultInfos infos then
      { domain := st.domain.handleFaultInfoUpdate σ nodeName infos
        lastFaultInfos := some (st.domain.handledList σ nodeName infos)
        previous := some infos }
    else { st with previous := some infos }
  | .deleted =>
    { domain := st.domain.handleFaultInfoUpdate σ nodeName []
      lastFaultInfos := none
      previous := none }

def exec (nodeName : String) (st : MonitorState) (event : HashOrder InstanceId × ConfigmapEvent) :
    Option MonitorState :=
  some (st.handleConfigmapChange event.1 nodeName event.2)

/-- A monitor that has just been started. -/
def start (s : FaultDomain) : MonitorState := ⟨s, none, none⟩

end MonitorState

/-! ## What is kept back is stored already -/

namespace FaultDomain

variable {s : FaultDomain} {σ : HashOrder InstanceId} {nodeName : String} {infos : List FaultInfo}
  {node : NodeMetadata}

/-- The node stores what the list would store, except that it is down: the same codes with the same
levels and types. -/
def StoresList (s : FaultDomain) (nodeName : String) (infos : List FaultInfo) : Prop :=
  ∀ node, s.faults.nodes.get? nodeName = some node → ∀ code, code ≠ SpecialFaultCode.nodeReboot →
    (node.hardwareFaultInfos.get? code).map FaultInfo.look =
      ((replaceHardwareFaults node infos (s.preSeparateLevel node)).hardwareFaultInfos.get? code).map
        FaultInfo.look

/-- The last entry of a code is as bad as any other, and of the type of the first one that is; and if
that one calls for a separation, it comes with the level that the business of the node demands, before
and after the list is handled. -/
def PlainList (s : FaultDomain) (nodeName : String) (infos : List FaultInfo) : Prop :=
  ∀ node, s.faults.nodes.get? nodeName = some node → ∀ code h,
    highestFault (entriesOf infos code) = some h → lookOf infos code = some h.look ∧
      (h.originFaultLevel = some .preSeparateNpu →
        h.faultLevel = s.preSeparateLevel node ∧ ∀ p, s.CallsFor nodeName node infos p → h.faultLevel = p)

theorem storedFault_keeps {infos : List FaultInfo} {p : FaultLevel} {h f : FaultInfo}
    (hworst : highestFault infos = some h) (hf : storedFault infos p = some f) :
    f.faultCode = h.faultCode ∧ f.look = (h.effectiveLevel p, h.faultType) ∧
      f.originFaultLevel = h.originFaultLevel := by
  rw [storedFault, hworst] at hf
  cases hf
  exact ⟨rfl, rfl, rfl⟩

theorem effectiveLevel_of_origin {p : FaultLevel} {h : FaultInfo}
    (hp : h.originFaultLevel = some .preSeparateNpu → h.faultLevel = p) :
    h.effectiveLevel p = h.faultLevel := by
  rw [FaultInfo.effectiveLevel]
  split
  · next horigin => exact (hp horigin).symm
  · rfl

theorem PlainList.look_stored (h : s.PlainList nodeName infos)
    (hnode : s.faults.nodes.get? nodeName = some node) {code : Int}
    (hcode : ¬(code = SpecialFaultCode.nodeReboot ∧ node.reboot ≠ none)) :
    ((replaceHardwareFaults node infos (s.preSeparateLevel node)).hardwareFaultInfos.get? code).map
      FaultInfo.look = lookOf infos code := by
  rw [get?_replaceHardwareFaults, if_neg hcode]
  split
  · next hnil => rw [lookOf, hnil]; rfl
  · next hne =>
    obtain ⟨worst, hworst⟩ : ∃ f, highestFault (entriesOf infos code) = some f :=
      Option.ne_none_iff_exists'.mp fun hnone => hne (highestFault_eq_none.mp hnone)
    obtain ⟨f, hf, -, -⟩ := storedFault_of_highest (s.preSeparateLevel node) hworst
    obtain ⟨hlook, hlevel⟩ := h node hnode code worst hworst
    rw [hf, hlook, Option.map_some, (storedFault_keeps hworst hf).2.1,
      effectiveLevel_of_origin fun horigin => (hlevel horigin).1]
    rfl

/-- After a plain list was handled, the node stores what the list says, and the list says what it said. -/
theorem PlainList.handled (h : s.PlainList nodeName infos)
    (hnode : s.faults.nodes.get? nodeName = some node) :
    ∃ node', (s.handleFaultInfoUpdate σ nodeName infos).faults.nodes.get? nodeName = some node' ∧
      (∀ code, code ≠ SpecialFaultCode.nodeReboot →
        (node'.hardwareFaultInfos.get? code).map FaultInfo.look = lookOf infos code) ∧
      ∀ code, lookOf (s.handledList σ nodeName infos) code = lookOf infos code := by
  obtain ⟨node', hnode', hcalls, hget⟩ := s.node_handleFaultInfoUpdate σ infos hnode
  -- plain means that the raw level is the adjusted one, before the list and after it
  have hlevels (worst : FaultInfo) (code : Int) (hworst : highestFault (entriesOf infos code) = some worst)
      (horigin : worst.originFaultLevel = some .preSeparateNpu) :
      worst.faultLevel = s.preSeparateLevel node ∧
        worst.faultLevel = (s.handleFaultInfoUpdate σ nodeName infos).preSeparateLevel node' :=
    ⟨((h node hnode code worst hworst).2 horigin).1, ((h node hnode code worst hworst).2 horigin).2 _ hcalls⟩
  have hkeeps {code : Int} {worst f : FaultInfo}
      (hworst : highestFault (entriesOf infos code) = some worst)
      (hf : storedFault (entriesOf infos code) (s.preSeparateLevel node) = some f) :
      f.faultCode = worst.faultCode ∧ f.look = worst.look ∧
        f.originFaultLevel = worst.originFaultLevel := by
    obtain ⟨hcode, hlook, horigin⟩ := storedFault_keeps hworst hf
    rw [effectiveLevel_of_origin fun horigin => (hlevels worst code hworst horigin).1] at hlook
    exact ⟨hcode, hlook, horigin⟩
  -- the node has the entry that is picked, however often it is adjusted
  have hstored {code : Int} (hcode : ¬(code = SpecialFaultCode.nodeReboot ∧ node.reboot ≠ none))
      {worst : FaultInfo} (hworst : highestFault (entriesOf infos code) = some worst) :
      ∃ f, node'.hardwareFaultInfos.get? code = some f ∧ f.faultCode = worst.faultCode ∧
        f.look = worst.look := by
    have hne : entriesOf infos code ≠ [] := fun hnil => by
      rw [hnil] at hworst
      cases hworst
    obtain ⟨f, hf, -, -⟩ := storedFault_of_highest (s.preSeparateLevel node) hworst
    obtain ⟨hfcode, hlook, horigin⟩ := hkeeps hworst hf
    rw [hget, get?_replaceHardwareFaults, if_neg hcode, if_neg hne, hf, Option.map_some]
    split
    · next hserved =>
      refine ⟨_, rfl, hfcode, ?_⟩
      rw [horigin] at hserved
      rw [← hlook, FaultInfo.look, FaultInfo.look]
      have hlevel : f.faultLevel = worst.faultLevel := congrArg Prod.fst hlook
      simp only [hlevel, (hlevels worst code hworst hserved.2).2]
    · exact ⟨f, rfl, hfcode, hlook⟩
  have hcodeOf {code : Int} {worst : FaultInfo}
      (hworst : highestFault (entriesOf infos code) = some worst) : worst.faultCode = code :=
    of_decide_eq_true (List.mem_filter.mp (highestFault_eq_some hworst).1).2
  refine ⟨node', hnode', fun code hcode => ?_, fun code => ?_⟩
  · have hfree : ¬(code = SpecialFaultCode.nodeReboot ∧ node.reboot ≠ none) := fun h => hcode h.1
    cases hworst : highestFault (entriesOf infos code) with
    | none =>
      have hnil := highestFault_eq_none.mp hworst
      rw [hget, get?_replaceHardwareFaults, if_neg hfree, if_pos hnil, lookOf, hnil]
      rfl
    | some worst =>
      obtain ⟨f, hf, -, hlook⟩ := hstored hfree hworst
      rw [hf, (h node hnode code worst hworst).1, Option.map_some, hlook]
  · rw [handledList, hnode]
    refine lookOf_rewriteStored (fun code worst f hworst hf => ?_) code
    rw [storedObject] at hf
    split at hf
    · obtain ⟨hfcode, hlook, -⟩ := hkeeps hworst hf
      exact ⟨hfcode.trans (hcodeOf hworst), hlook⟩
    · next hfree =>
      rw [hnode', Option.bind_some] at hf
      obtain ⟨f', hf', hfcode, hlook⟩ := hstored hfree hworst
      obtain rfl : f' = f := Option.some.inj (hf'.symm.trans hf)
      exact ⟨hfcode.trans (hcodeOf hworst), hlook⟩

end FaultDomain

namespace MonitorState

variable {st : MonitorState} {nodeName : String}

/-- The lists that are delivered are plain. -/
def Plain (nodeName : String) (st : MonitorState) (event : HashOrder InstanceId × ConfigmapEvent) :
    Prop :=
  match event.2 with
  | .updated infos => st.domain.PlainList nodeName infos
  | .deleted => True

/-- What the monitor has kept says what the node stores, and what the last event said. -/
structure InStep (nodeName : String) (st : MonitorState) : Prop where
  stored : ∀ last, st.lastFaultInfos = some last →
    ∀ node, st.domain.faults.nodes.get? nodeName = some node → ∀ code,
      code ≠ SpecialFaultCode.nodeReboot →
        (node.hardwareFaultInfos.get? code).map FaultInfo.look = lookOf last code
  previous : ∀ infos, st.previous = some infos →
    ∃ last, st.lastFaultInfos = some last ∧ ∀ code, lookOf infos code = lookOf last code

theorem InStep.step {event : HashOrder InstanceId × ConfigmapEvent} (h : st.InStep nodeName)
    (hplain : Plain nodeName st event) :
    (st.handleConfigmapChange event.1 nodeName event.2).InStep nodeName := by
  obtain ⟨σ, event⟩ := event
  cases event with
  | deleted =>
    constructor
    · intro last hlast
      cases hlast
    · intro infos hprevious
      cases hprevious
  | updated infos =>
    rw [handleConfigmapChange]
    split
    · cases hnode : st.domain.faults.nodes.get? nodeName with
      | none =>
        have hsame : st.domain.handleFaultInfoUpdate σ nodeName infos = st.domain := by
          rw [FaultDomain.handleFaultInfoUpdate, hnode]
        constructor
        · intro last hlast node hget
          simp only [hsame] at hget
          rw [hnode] at hget
          cases hget
        · rintro _ ⟨⟩
          refine ⟨_, rfl, fun code => ?_⟩
          rw [FaultDomain.handledList, hnode]
      | some node =>
        obtain ⟨node', hnode', hstored, hlook⟩ :=
          FaultDomain.PlainList.handled (σ := σ) hplain hnode
        constructor
        · rintro _ ⟨⟩ node'' hnode'' code hcode
          obtain rfl : node' = node'' := Option.some.inj (hnode'.symm.trans hnode'')
          rw [hstored code hcode, hlook]
        · rintro _ ⟨⟩
          exact ⟨_, rfl, fun code => (hlook code).symm⟩
    · next hchanged =>
      constructor
      · exact h.stored
      · rintro _ ⟨⟩
        cases hlast : st.lastFaultInfos with
        | none =>
          rw [hlast] at hchanged
          exact absurd rfl hchanged
        | some last =>
          rw [hlast, Bool.not_eq_true] at hchanged
          exact ⟨last, rfl, hasFaultInfoChanged_eq_false.mp hchanged⟩

/-- **The monitor agrees with the store** as long as the lists are plain: a list that it keeps back is
stored already, and a list that repeats the last one is kept back. -/
theorem keepsBack_stored {s : FaultDomain} {events : List (HashOrder InstanceId × ConfigmapEvent)}
    (hrun : Run (exec nodeName) (Plain nodeName) (start s) events st) :
    (∀ infos, st.domain.PlainList nodeName infos → hasFaultInfoChanged st.lastFaultInfos infos = false →
      st.domain.StoresList nodeName infos) ∧
    ∀ infos, st.previous = some infos → hasFaultInfoChanged st.lastFaultInfos infos = false := by
  have h : st.InStep nodeName := by
    refine hrun.invariant_state ⟨?_, ?_⟩ fun hs hplain he => ?_
    · intro last hlast
      cases hlast
    · intro infos hprevious
      cases hprevious
    · cases he
      exact hs.step hplain
  constructor
  · intro infos hplain hkept node hnode code hcode
    have hfree : ¬(code = SpecialFaultCode.nodeReboot ∧ node.reboot ≠ none) := fun h => hcode h.1
    cases hlast : st.lastFaultInfos with
    | none =>
      rw [hlast] at hkept
      cases hkept
    | some last =>
      rw [hlast] at hkept
      rw [h.stored last hlast node hnode code hcode, hplain.look_stored hnode hfree]
      exact (hasFaultInfoChanged_eq_false.mp hkept code).symm
  · intro infos hprevious
    obtain ⟨last, hlast, hlook⟩ := h.previous infos hprevious
    rw [hlast]
    exact hasFaultInfoChanged_eq_false.mpr hlook

/-! ## Lists of one code -/

/-- A list is plain if the last entry of every code looks like the first worst one, and none calls for a
separation. -/
theorem plainList_of_look {s : FaultDomain} {infos : List FaultInfo}
    (horigin : ∀ f ∈ infos, f.originFaultLevel ≠ some .preSeparateNpu)
    (hlook : ∀ f ∈ infos, lookOf infos f.faultCode =
      (highestFault (entriesOf infos f.faultCode)).map FaultInfo.look) : s.PlainList nodeName infos := by
  intro node hnode code h hworst
  obtain ⟨hmem, hcode⟩ := List.mem_filter.mp (highestFault_eq_some hworst).1
  have hlast := hlook h hmem
  rw [of_decide_eq_true hcode, hworst] at hlast
  exact ⟨hlast, fun hpre => absurd hpre (horigin h hmem)⟩

/-- Two chips have a fault, and the last one listed has the worse one. -/
def twoChips : List FaultInfo :=
  [FaultDomain.chipEntry .l1 .notHandleFault "Ascend910-1",
    FaultDomain.chipEntry .l5 .restartNpu "Ascend910-0"]

/-- A third chip has the worse fault as well. -/
def threeChips : List FaultInfo :=
  [FaultDomain.chipEntry .l5 .restartNpu "Ascend910-2",
    FaultDomain.chipEntry .l1 .notHandleFault "Ascend910-1",
    FaultDomain.chipEntry .l5 .restartNpu "Ascend910-0"]

/-- A list that repeats the last one, or says the same of the code, is kept back and is stored. -/
theorem sameChip_keptBack : ∃ st : MonitorState,
    Run (exec "node-1") (Plain "node-1") (start FaultDomain.servedNode)
      [(.insertion, .updated twoChips)] st ∧
    hasFaultInfoChanged st.lastFaultInfos twoChips = false ∧ st.domain.StoresList "node-1" twoChips ∧
    hasFaultInfoChanged st.lastFaultInfos threeChips = false ∧
      st.domain.StoresList "node-1" threeChips := by
  have hplain {s : FaultDomain} : s.PlainList "node-1" twoChips :=
    plainList_of_look (by decide) (by decide)
  have hrun : Run (exec "node-1") (Plain "node-1") (start FaultDomain.servedNode)
      [(.insertion, .updated twoChips)]
      ((start FaultDomain.servedNode).handleConfigmapChange .insertion "node-1" (.updated twoChips)) :=
    Run.snoc Run.nil hplain rfl
  obtain ⟨hstored, hkept⟩ := keepsBack_stored hrun
  have hagain := hkept _ rfl
  have hthree : hasFaultInfoChanged ((start FaultDomain.servedNode).handleConfigmapChange .insertion
      "node-1" (.updated twoChips)).lastFaultInfos threeChips = false := by decide
  exact ⟨_, hrun, hagain, hstored _ hplain hagain, hthree,
    hstored _ (plainList_of_look (by decide) (by decide)) hthree⟩

/-- Of a code with two entries the last one is compared, and the worst one is stored; and an entry whose
level was adjusted differs from what the next list says. -/
theorem severeFirst_disagrees :
    (hasFaultInfoChanged
        ((start FaultDomain.servedNode).handleConfigmapChange .insertion "node-1"
          (.updated [FaultDomain.chipEntry .l5 .restartNpu "Ascend910-0",
            FaultDomain.chipEntry .l1 .notHandleFault "Ascend910-1"])).lastFaultInfos
        [FaultDomain.chipEntry .l1 .notHandleFault "Ascend910-1"] = false ∧
      ¬((start FaultDomain.servedNode).handleConfigmapChange .insertion "node-1"
          (.updated [FaultDomain.chipEntry .l5 .restartNpu "Ascend910-0",
            FaultDomain.chipEntry .l1 .notHandleFault "Ascend910-1"])).domain.StoresList "node-1"
        [FaultDomain.chipEntry .l1 .notHandleFault "Ascend910-1"]) ∧
    hasFaultInfoChanged
      ((start FaultDomain.servedNode).handleConfigmapChange .insertion "node-1"
        (.updated [FaultDomain.chipEntry .l6 .preSeparateNpu "Ascend910-0"])).lastFaultInfos
      [FaultDomain.chipEntry .l6 .preSeparateNpu "Ascend910-0"] = true := by
  refine ⟨⟨by decide, fun h => ?_⟩, by decide⟩
  have hlooks : (((start FaultDomain.servedNode).handleConfigmapChange .insertion "node-1"
      (.updated [FaultDomain.chipEntry .l5 .restartNpu "Ascend910-0",
        FaultDomain.chipEntry .l1 .notHandleFault "Ascend910-1"])).domain.faults.nodes.get?
      "node-1").map (fun node => ((node.hardwareFaultInfos.get? 0x80C98000).map (·.faultLevel),
        [FaultLevel.l2, .l6].map fun p => ((FaultDomain.replaceHardwareFaults node
          [FaultDomain.chipEntry .l1 .notHandleFault "Ascend910-1"]
          p).hardwareFaultInfos.get? 0x80C98000).map (·.faultLevel))) =
      some (some .l5, [some .l1, some .l1]) := by decide
  obtain ⟨node, hnode, hboth⟩ := Option.map_eq_some_iff.mp hlooks
  simp only [List.map_cons, List.map_nil, Prod.mk.injEq, List.cons.injEq, and_true] at hboth
  obtain ⟨hstored, hbusy, hfree⟩ := hboth
  have hlevel := congrArg (Option.map Prod.fst) (h node hnode 0x80C98000 (by decide))
  have hfst : Prod.fst ∘ FaultInfo.look = fun f : FaultInfo => f.faultLevel := rfl
  rw [Option.map_map, Option.map_map, hfst, hstored] at hlevel
  obtain hp | hp := FaultDomain.preSeparateLevel_cases _ node
  · rw [hp, hbusy] at hlevel
    cases hlevel
  · rw [hp, hfree] at hlevel
    cases hlevel

end MonitorState

end PyMotor.Controller
