import PyMotor.Common.EtcdClient
import PyMotor.Controller.Persistence
import PyMotor.Lib.Always

/-!
# One ETCD for all components

The fault manager, the instance manager and the instance assembler of every deployment persist their state in
one ETCD, each under its own prefix (`/controller/fault_manager` and so on). Besides, report flags and locks
are written there. Each component has been taken as one with a store of its own (`Persistence`). In the shared
store each is as if it were alone: whatever the order of the requests, `restore_data` of its prefix gives what its
own deletions and puts have left, and all other keys are as their own writes left them
(`components_do_not_meet`).

How a state becomes text and is read again (`json`, `pydantic`) is a parameter.
-/

namespace PyMotor.Controller

open Common EtcdKv

/-- Where a component of the controller puts its state. -/
def PersistedComponent.keyName : PersistedComponent → String
  | faultManager => "fault_manager"
  | instanceManager => "instance_manager"
  | instanceAssembler => "instance_assembler"

def PersistedComponent.keyPrefix (component : PersistedComponent) : String :=
  "/controller/" ++ component.keyName

/-- A component of a deployment. -/
abbrev Owner := EtcdScope × PersistedComponent

/-- The prefix as ETCD sees it. -/
def Owner.start (o : Owner) : String := getKeyWithNamespaceAndJobName o.1 o.2.keyPrefix

/-- `f"{key_prefix}/{data_key}"` for the only data key there is, as ETCD sees it. -/
def Owner.stateKey (o : Owner) : String := getKeyWithNamespaceAndJobName o.1 (o.2.keyPrefix ++ "/" ++ "state")

variable {D : Type}

structure SharedEtcd (D : Type) where
  kvs : Kvs
  /-- Each component, with what its store would be if it had one of its own. -/
  parts : Owner → Persistence D

inductive SharedOp (D : Type) where
  | persist (owner : Owner) (op : PersistOp D)
  /-- Another key is put or deleted: a report flag, a lock, the key of a lease that has run out. -/
  | write (key : String) (value : Option String)

namespace SharedEtcd

/-- The requests to ETCD. -/
def request (dumps : PersistentState D → String) (o : Owner) (part : Persistence D) (kvs : Kvs) :
    PersistOp D → Kvs
  | .deletePrefix _ outcome => if outcome.applied then deletePrefix o.1 kvs o.2.keyPrefix else kvs
  | .putJson call outcome =>
    match part.calls.get? call with
    | some c =>
      if outcome.applied then putJson o.1 kvs (o.2.keyPrefix ++ "/" ++ "state") (dumps c.state) else kvs
    | none => kvs
  | _ => kvs

def writeKey (kvs : Kvs) (key : String) : Option String → Kvs
  | some value => kvs.insert key value
  | none => kvs.erase key

def exec (dumps : PersistentState D → String) (s : SharedEtcd D) : SharedOp D → Option (SharedEtcd D)
  | .persist o op => do
    let part ← (s.parts o).exec o.2 op
    some { kvs := request dumps o (s.parts o) s.kvs op, parts := Function.update s.parts o part }
  | .write key value => some { s with kvs := writeKey s.kvs key value }

/-- Every component starts from what it restored. -/
def start (kvs : Kvs) (restored : Owner → Option (PersistentState D)) (data : Owner → D) : SharedEtcd D where
  kvs := kvs
  parts := fun o => .start (restored o) (data o)

/-- A key that is under no component's prefix. -/
def Foreign (key : String) : Prop := ∀ o : Owner, ¬StartsWith key o.start

/-- What else is written leaves the prefixes of the components alone. -/
def KeepsOut (_ : SharedEtcd D) : SharedOp D → Prop
  | .persist _ _ => True
  | .write key _ => Foreign key

def ofOwner (o : Owner) : SharedOp D → Option (PersistOp D)
  | .persist o' op => if o' = o then some op else none
  | .write _ _ => none

/-- What a component has done. -/
def ownOps (o : Owner) (ops : List (SharedOp D)) : List (PersistOp D) :=
  ops.filterMap (ofOwner o)

/-- What the other writes make of a store. -/
def otherWrites (kvs : Kvs) (ops : List (SharedOp D)) : Kvs :=
  ops.foldl (fun kvs op =>
    match op with
    | .persist _ _ => kvs
    | .write key value => writeKey kvs key value) kvs

/-- **The part of a component**: under its prefix there is its state and nothing else. -/
def Holds (dumps : PersistentState D → String) (kvs : Kvs) (o : Owner) (p : Option (PersistentState D)) : Prop :=
  ∀ k, StartsWith k o.start → kvs.get? k = if k = o.stateKey then p.map dumps else none

/-! ## Keys -/

theorem startsWith_root_iff (d : EtcdScope) (rest : String) :
    StartsWith ("/controller/" ++ rest) d.root ↔ d.podNamespace = "" ∧ d.jobName = "controller" := by
  have hkey : ("/controller/" ++ rest).toList = [] ++ '/' :: ("controller".toList ++ '/' :: rest.toList) := by
    simp
  have hroot : d.root.toList = d.podNamespace.toList ++ '/' :: (d.jobName.toList ++ '/' :: []) := by
    simp [EtcdScope.root]
  rw [StartsWith, hkey, hroot, append_cons_isPrefix_iff d.noSlash.1 List.not_mem_nil,
    append_cons_isPrefix_iff d.noSlash.2 (by decide), String.toList_inj, ← String.toList_empty, String.toList_inj]
  simp

/-- What comes before a key of the controller. -/
def base (d : EtcdScope) : String :=
  if d.podNamespace = "" ∧ d.jobName = "controller" then "" else d.podNamespace ++ "/" ++ d.jobName

theorem getKey_eq (d : EtcdScope) (rest : String) :
    getKeyWithNamespaceAndJobName d ("/controller/" ++ rest) = base d ++ ("/controller/" ++ rest) := by
  unfold getKeyWithNamespaceAndJobName base
  simp only [startsWith_root_iff]
  split
  · simp
  · rfl

theorem stateKey_eq (o : Owner) : o.stateKey = o.start ++ "/state" := by
  rw [Owner.stateKey, Owner.start, PersistedComponent.keyPrefix, String.append_assoc, String.append_assoc,
    getKey_eq, getKey_eq]
  simp [String.append_assoc]

theorem stateKey_startsWith (o : Owner) : StartsWith o.stateKey o.start := by
  rw [stateKey_eq, StartsWith, String.toList_append]
  exact List.prefix_append _ _

theorem startsWith_root {o : Owner} {k : String} (h : StartsWith k o.start) : StartsWith k o.1.root := by
  refine List.IsPrefix.trans ?_ h
  unfold Owner.start getKeyWithNamespaceAndJobName
  split
  · next hkey => exact hkey
  · simp [EtcdScope.root, PersistedComponent.keyPrefix]

theorem deployment_eq {d d' : EtcdScope} {k : String} (h : StartsWith k d.root) (h' : StartsWith k d'.root) :
    d = d' := by
  have hroot : ∀ e : EtcdScope,
      e.root.toList = e.podNamespace.toList ++ '/' :: (e.jobName.toList ++ '/' :: []) := by
    intro e
    simp [EtcdScope.root]
  have heq : d.podNamespace.toList = d'.podNamespace.toList ∧ d.jobName.toList = d'.jobName.toList := by
    rcases List.prefix_or_prefix_of_prefix h h' with hp | hp
    · rw [hroot, hroot, append_cons_isPrefix_iff d.noSlash.1 d'.noSlash.1,
        append_cons_isPrefix_iff d.noSlash.2 d'.noSlash.2] at hp
      exact ⟨hp.1, hp.2.1⟩
    · rw [hroot, hroot, append_cons_isPrefix_iff d'.noSlash.1 d.noSlash.1,
        append_cons_isPrefix_iff d'.noSlash.2 d.noSlash.2] at hp
      exact ⟨hp.1.symm, hp.2.1.symm⟩
  cases d
  cases d'
  simp only [String.toList_inj] at heq
  simp [heq]

theorem start_eq (o : Owner) : o.start = base o.1 ++ ("/controller/" ++ o.2.keyName) :=
  getKey_eq o.1 o.2.keyName

theorem keyName_inj {c c' : PersistedComponent} (h : c.keyName.toList <+: c'.keyName.toList) : c = c' := by
  revert h
  cases c <;> cases c' <;> decide +kernel

/-- **No key is under the prefixes of two components.** -/
theorem owner_eq {o o' : Owner} {k : String} (h : StartsWith k o.start) (h' : StartsWith k o'.start) : o = o' := by
  have hd : o.1 = o'.1 := deployment_eq (startsWith_root h) (startsWith_root h')
  have hc : o.2 = o'.2 := by
    rcases List.prefix_or_prefix_of_prefix h h' with hp | hp
    · rw [start_eq, start_eq, hd, String.toList_append, String.toList_append, String.toList_append,
        String.toList_append, List.prefix_append_right_inj, List.prefix_append_right_inj] at hp
      exact keyName_inj hp
    · rw [start_eq, start_eq, hd, String.toList_append, String.toList_append, String.toList_append,
        String.toList_append, List.prefix_append_right_inj, List.prefix_append_right_inj] at hp
      exact (keyName_inj hp).symm
  exact Prod.ext hd hc

/-! ## Requests -/

section Requests

variable {dumps : PersistentState D → String} {loads : String → Option (PersistentState D)} {kvs : Kvs}
  {o o' : Owner} {part part' : Persistence D} {op : PersistOp D} {p : Option (PersistentState D)}

theorem get?_request_of_not {k : String} (hk : ¬StartsWith k o.start) :
    (request dumps o part kvs op).get? k = kvs.get? k := by
  cases op with
  | deletePrefix call outcome =>
    simp only [request]
    split
    · rw [get?_deletePrefix]
      exact if_neg hk
    · rfl
  | putJson call outcome =>
    have hne : o.stateKey ≠ k := fun h => hk (h ▸ stateKey_startsWith o)
    simp only [request]
    split
    · split
      · exact Dict.get?_insert_ne _ _ hne
      · rfl
    · rfl
  | change _ => rfl
  | begin _ => rfl
  | acquireLock _ _ => rfl
  | releaseLock _ => rfl

theorem Holds.deleted (kvs : Kvs) (o : Owner) :
    Holds dumps (deletePrefix o.1 kvs o.2.keyPrefix) o none := by
  intro k hk
  have hk : StartsWith k (getKeyWithNamespaceAndJobName o.1 o.2.keyPrefix) := hk
  simp [get?_deletePrefix, hk]

theorem Holds.put (h : Holds dumps kvs o p) (q : PersistentState D) :
    Holds dumps (putJson o.1 kvs (o.2.keyPrefix ++ "/" ++ "state") (dumps q)) o (some q) := by
  intro k hk
  change (kvs.insert o.stateKey (dumps q)).get? k = _
  by_cases heq : k = o.stateKey
  · rw [heq, Dict.get?_insert_self, if_pos rfl, Option.map_some]
  · rw [Dict.get?_insert_ne _ _ (Ne.symm heq), h k hk, if_neg heq, if_neg heq]

/-- **Its own requests** do to the part of a component what they would do to a store of its own. -/
theorem Holds.request (h : Holds dumps kvs o part.store) (hexec : part.exec o.2 op = some part') :
    Holds dumps (request dumps o part kvs op) o part'.store := by
  cases op with
  | deletePrefix call outcome =>
    simp only [Persistence.exec] at hexec
    split at hexec
    · cases hexec
      simp only [SharedEtcd.request, Persistence.deletePrefix]
      split
      · exact Holds.deleted kvs o
      · exact h
    · cases hexec
  | putJson call outcome =>
    simp only [Persistence.exec] at hexec
    split at hexec
    · next hcall =>
      cases hexec
      simp only [SharedEtcd.request, Persistence.putJson, hcall]
      split
      · exact h.put _
      · exact h
    · cases hexec
  | change _ =>
    cases hexec
    exact h
  | begin _ =>
    simp only [Persistence.exec] at hexec
    split at hexec
    · cases hexec
    · cases hexec
      exact h
  | acquireLock _ _ =>
    simp only [Persistence.exec] at hexec
    split at hexec
    · cases hexec
      unfold Persistence.acquireLock
      split
      · exact h
      · exact h
    · cases hexec
  | releaseLock _ =>
    simp only [Persistence.exec] at hexec
    split at hexec
    · cases hexec
      exact h
    · cases hexec

theorem Holds.congr {kvs' : Kvs} (h : Holds dumps kvs o p)
    (hsame : ∀ k, StartsWith k o.start → kvs'.get? k = kvs.get? k) : Holds dumps kvs' o p := by
  intro k hk
  rw [hsame k hk, h k hk]

theorem get?_writeKey_ne {key k : String} (h : key ≠ k) (value : Option String) :
    (writeKey kvs key value).get? k = kvs.get? k := by
  cases value with
  | none => exact Dict.get?_erase_ne _ h
  | some v => exact Dict.get?_insert_ne _ _ h

theorem get?_writeKey_congr {kvs' : Kvs} {k : String} (h : kvs.get? k = kvs'.get? k) (key : String)
    (value : Option String) : (writeKey kvs key value).get? k = (writeKey kvs' key value).get? k := by
  by_cases heq : key = k
  · subst heq
    cases value <;> simp [writeKey]
  · rw [get?_writeKey_ne heq, get?_writeKey_ne heq, h]

/-! ## Reading back -/

theorem Holds.range_eq (h : Holds dumps kvs o p) :
    range kvs (utf8 o.start) (prefixRangeEnd o.start) = p.toList.map fun q => (o.stateKey, dumps q) := by
  have hmem : ∀ k json, (k, json) ∈ range kvs (utf8 o.start) (prefixRangeEnd o.start) ↔
      (k, json) ∈ p.toList.map fun q => (o.stateKey, dumps q) := by
    intro k json
    refine (mem_range_iff o.1 kvs o.2.keyPrefix k json).trans ?_
    constructor
    · rintro ⟨hk, hget⟩
      rw [h k hk] at hget
      split at hget
      · next heq =>
        obtain ⟨q, hq, rfl⟩ := Option.map_eq_some_iff.mp hget
        simp [hq, heq]
      · cases hget
    · intro hkey
      obtain ⟨q, hq, heq⟩ := List.mem_map.mp hkey
      cases heq
      rw [Option.mem_toList] at hq
      refine ⟨stateKey_startsWith o, ?_⟩
      rw [h _ (stateKey_startsWith o), if_pos rfl, hq, Option.map_some]
  have hperm : (range kvs (utf8 o.start) (prefixRangeEnd o.start)).Perm
      (p.toList.map fun q => (o.stateKey, dumps q)) := by
    refine Dict.entries_perm_iff.mpr ⟨?_, fun k json => ?_⟩
    · cases p <;> simp
    · rw [← hmem, ← Dict.mem_entries_iff, range]
  cases p with
  | none => exact hperm.eq_nil
  | some q => exact List.perm_singleton.mp hperm

theorem relativeItem_stateKey (hcodec : ∀ q, loads (dumps q) = some q) (o : Owner) (q : PersistentState D) :
    relativeItem loads o.start (o.stateKey, dumps q) = some ("state", q) := by
  have hkey : o.stateKey.toList = o.start.toList ++ "/state".toList := by
    rw [stateKey_eq, String.toList_append]
  have hdrop : o.stateKey.toList.drop (o.start.length + 1) = "state".toList := by
    rw [hkey, ← String.length_toList, List.drop_append, List.drop_of_length_le (Nat.le_succ _)]
    simp
  rw [relativeItem, hcodec, Option.map_some, hdrop, String.ofList_toList]

/-- **What a component reads back** is what is under its prefix. -/
theorem restoreData_of_holds (hcodec : ∀ q, loads (dumps q) = some q) (h : Holds dumps kvs o p) :
    restoreData loads o.1 kvs o.2.keyPrefix =
      p.map fun q => (∅ : Dict String (PersistentState D)).insert "state" q := by
  have hdata : getPrefixData loads o.1 kvs o.2.keyPrefix =
      (p.toList.map fun q => ("state", q)).foldl (fun data item => data.insert item.1 item.2) ∅ := by
    have hread : (range kvs (utf8 o.start) (prefixRangeEnd o.start)).mapM (relativeItem loads o.start) =
        some (p.toList.map fun q => ("state", q)) := by
      rw [h.range_eq]
      cases p with
      | none => rfl
      | some q => simp [relativeItem_stateKey hcodec]
    rw [Owner.start] at hread
    simp only [getPrefixData, hread]
  rw [restoreData, hdata]
  cases p with
  | none => rfl
  | some q => rfl

end Requests

/-! ## Runs -/

section Runs

variable {dumps : PersistentState D → String} {loads : String → Option (PersistentState D)} {kvs : Kvs}
  {restored : Owner → Option (PersistentState D)} {data : Owner → D} {s s' : SharedEtcd D}
  {ops : List (SharedOp D)} {op : SharedOp D}

theorem exec_holds (h : ∀ o, Holds dumps s.kvs o (s.parts o).store) (hkeeps : KeepsOut s op)
    (hexec : s.exec dumps op = some s') (o : Owner) : Holds dumps s'.kvs o (s'.parts o).store := by
  cases op with
  | persist o' op =>
    obtain ⟨part, hpart, heq⟩ := Option.bind_eq_some_iff.mp hexec
    cases heq
    by_cases ho : o = o'
    · subst ho
      simp only [Function.update_self]
      exact (h o).request hpart
    · simp only [Function.update_of_ne ho]
      refine (h o).congr fun k hk => get?_request_of_not fun hk' => ?_
      exact ho (owner_eq hk hk')
  | write key value =>
    cases hexec
    refine (h o).congr fun k hk => get?_writeKey_ne ?_ value
    rintro rfl
    exact hkeeps o hk

theorem run_holds (hstart : ∀ o, Holds dumps kvs o (restored o))
    (hrun : Run (exec dumps) KeepsOut (start kvs restored data) ops s) (o : Owner) :
    Holds dumps s.kvs o (s.parts o).store :=
  hrun.invariant_state (I := fun s => ∀ o, Holds dumps s.kvs o (s.parts o).store) hstart
    (fun h hkeeps hexec => exec_holds h hkeeps hexec) o

theorem run_part (hrun : Run (exec dumps) KeepsOut (start kvs restored data) ops s) (o : Owner) :
    Run (Persistence.exec o.2) Free (.start (restored o) (data o)) (ownOps o ops) (s.parts o) := by
  induction hrun with
  | nil => exact .nil
  | @snoc ops s op s' _ _ hexec ih =>
    have hops : ownOps o (ops ++ [op]) = ownOps o ops ++ (ofOwner o op).toList := by
      rw [ownOps, List.filterMap_append]
      cases hop : ofOwner o op <;> simp [ownOps, hop]
    rw [hops]
    cases op with
    | persist o' op =>
      obtain ⟨part, hpart, heq⟩ := Option.bind_eq_some_iff.mp hexec
      cases heq
      by_cases ho : o' = o
      · subst ho
        simpa [ofOwner, Function.update_self] using ih.snoc trivial hpart
      · simpa [ofOwner, ho, Function.update_of_ne (Ne.symm ho)] using ih
    | write key value =>
      cases hexec
      simpa [ofOwner] using ih

theorem run_foreign (hrun : Run (exec dumps) KeepsOut (start kvs restored data) ops s) {k : String}
    (hk : Foreign k) : s.kvs.get? k = (otherWrites kvs ops).get? k := by
  induction hrun with
  | nil => rfl
  | @snoc ops s op s' _ _ hexec ih =>
    rw [otherWrites, List.foldl_append, List.foldl_cons, List.foldl_nil]
    cases op with
    | persist o op =>
      obtain ⟨part, -, heq⟩ := Option.bind_eq_some_iff.mp hexec
      cases heq
      rw [get?_request_of_not (hk o)]
      exact ih
    | write key value =>
      cases hexec
      exact get?_writeKey_congr ih key value

/-- **The components do not meet in ETCD.** Whatever the order of the requests of all components and of the
other writes, each component runs as if it had a store of its own, reads back what this store would hold, and the
other keys are as the other writes left them. -/
theorem components_do_not_meet (hcodec : ∀ q, loads (dumps q) = some q)
    (hstart : ∀ o, Holds dumps kvs o (restored o))
    (hrun : Run (exec dumps) KeepsOut (start kvs restored data) ops s) :
    (∀ o : Owner,
      Run (Persistence.exec o.2) Free (.start (restored o) (data o)) (ownOps o ops) (s.parts o) ∧
      restoreData loads o.1 s.kvs o.2.keyPrefix =
        (s.parts o).store.map fun q => (∅ : Dict String (PersistentState D)).insert "state" q) ∧
    ∀ k, Foreign k → s.kvs.get? k = (otherWrites kvs ops).get? k :=
  ⟨fun o => ⟨run_part hrun o, restoreData_of_holds hcodec (run_holds hstart hrun o)⟩,
    fun _ hk => run_foreign hrun hk⟩

end Runs

/-! ## An example -/

/-- The flag that a new master reads (`CONTROLLER_REPORT_EVENT_KEY`) is no component's. -/
theorem foreign_reportEventKey (d : EtcdScope) :
    Foreign (getKeyWithNamespaceAndJobName d ("/controller/" ++ "should_report_event")) := by
  intro o h
  have hroot : StartsWith (getKeyWithNamespaceAndJobName d ("/controller/" ++ "should_report_event")) d.root := by
    unfold getKeyWithNamespaceAndJobName
    split
    · next hkey => exact hkey
    · simp [StartsWith, EtcdScope.root]
  have hd : o.1 = d := deployment_eq (startsWith_root h) hroot
  rw [StartsWith, start_eq, getKey_eq, hd, String.toList_append, String.toList_append, String.toList_append,
    String.toList_append, List.prefix_append_right_inj, List.prefix_append_right_inj] at h
  revert h
  cases o.2 <;> decide +kernel

/-- What a state without data looks like in ETCD, up to its version. -/
def opening : String := "\x7b\"data\": \x7b\x7d, \"version\": "

def dumpsEmpty (p : PersistentState Unit) : String := opening ++ toString p.version ++ "\x7d"

def loadsEmpty (json : String) : Option (PersistentState Unit) :=
  if StartsWith json opening then
    some ⟨(), Nat.ofDigitChars 10 (json.toList.drop opening.toList.length).dropLast 0⟩
  else none

theorem loadsEmpty_dumpsEmpty (p : PersistentState Unit) : loadsEmpty (dumpsEmpty p) = some p := by
  have hdumps : (dumpsEmpty p).toList = opening.toList ++ (Nat.toDigits 10 p.version ++ ['}']) := by
    simp [dumpsEmpty]
  have hstart : StartsWith (dumpsEmpty p) opening := by
    rw [StartsWith, hdumps]
    exact List.prefix_append _ _
  rw [loadsEmpty, if_pos hstart, hdumps, List.drop_left, List.dropLast_concat,
    Nat.ofDigitChars_toDigits (by decide) (by decide)]

/-- Two deployments, the name of one of which begins with the name of the other. -/
def job (name : String) (h : '/' ∉ name.toList) : EtcdScope := ⟨"motor", name, ⟨by decide, h⟩⟩

def job1 : EtcdScope := job "job1" (by decide)

def job10 : EtcdScope := job "job10" (by decide)

def reportEventKey : String :=
  getKeyWithNamespaceAndJobName job1 ("/controller/" ++ "should_report_event")

/-- Both fault managers persist. Then the first one persists again, and its put does not get through. -/
def twoFaultManagers : List (SharedOp Unit) :=
  [.write reportEventKey (some "true"),
    .persist (job1, .faultManager) (.begin 0),
    .persist (job10, .faultManager) (.begin 0),
    .persist (job1, .faultManager) (.acquireLock 0 true),
    .persist (job10, .faultManager) (.acquireLock 0 true),
    .persist (job10, .faultManager) (.deletePrefix 0 .done),
    .persist (job1, .faultManager) (.deletePrefix 0 .done),
    .persist (job1, .faultManager) (.putJson 0 .done),
    .persist (job10, .faultManager) (.putJson 0 .lost),
    .persist (job1, .faultManager) (.releaseLock 0),
    .persist (job1, .faultManager) (.begin 1),
    .persist (job1, .faultManager) (.acquireLock 1 true),
    .persist (job1, .faultManager) (.deletePrefix 1 .lost),
    .persist (job1, .faultManager) (.putJson 1 .refused)]

theorem twoFaultManagers_do_not_meet : ∃ s,
    Run (exec dumpsEmpty) KeepsOut (start ∅ (fun _ => none) fun _ => ()) twoFaultManagers s ∧
    restoreData loadsEmpty job1 s.kvs "/controller/fault_manager" = none ∧
    restoreData loadsEmpty job10 s.kvs "/controller/fault_manager" =
      some ((∅ : Dict String (PersistentState Unit)).insert "state" ⟨(), 1⟩) ∧
    s.kvs.get? reportEventKey = some "true" := by
  have hcomputed : (runList (exec dumpsEmpty) Free (start ∅ (fun _ => none) fun _ => ()) twoFaultManagers).map
      (fun s => ((s.parts (job1, .faultManager)).store, (s.parts (job10, .faultManager)).store)) =
      some (none, some ⟨(), 1⟩) := by
    decide +kernel
  obtain ⟨s, hfree, hstores⟩ := runList_exists hcomputed
  obtain ⟨hfirst, hsecond⟩ := Prod.mk.inj hstores
  have hrun : Run (exec dumpsEmpty) KeepsOut (start ∅ (fun _ => none) fun _ => ()) twoFaultManagers s := by
    refine hfree.guarded fun op hop s => ?_
    cases op with
    | persist _ _ => trivial
    | write key _ =>
      simp only [twoFaultManagers, List.mem_cons, SharedOp.write.injEq, reduceCtorEq, List.not_mem_nil,
        or_false] at hop
      rw [hop.1]
      exact foreign_reportEventKey job1
  have hempty : ∀ o, Holds dumpsEmpty ∅ o none := by
    intro o k _
    simp
  obtain ⟨hparts, hother⟩ := components_do_not_meet loadsEmpty_dumpsEmpty hempty hrun
  refine ⟨s, hrun, ?_, ?_, ?_⟩
  · exact (hparts (job1, .faultManager)).2.trans (by rw [hfirst, Option.map_none])
  · exact (hparts (job10, .faultManager)).2.trans (by rw [hsecond, Option.map_some])
  · exact (hother _ (foreign_reportEventKey job1)).trans (by decide +kernel)

end SharedEtcd

end PyMotor.Controller
