import PyMotor.Lib.Spans
import PyMotor.Coordinator.BlockOffset.Tables

/-!
# What the offset tables promise

A table has an entry for each message, in ascending order and within the rendered request. The standard
calculator keeps this for any tokens, since its entries are the positions of one marker; so do both
tables of tools, which are compared entry by entry. The scan for DeepSeek V4 keeps it as long as its
cursors agree: up to the marker that ends a message of a user there have to be as many ends of sentence
as messages of the assistant (`tables_sound_iff`).
-/

namespace PyMotor.Coordinator

/-- The position of a marker is compared with a number of tokens by counting. -/
theorem idxsOf_lt_iff {ids : List ℤ} {id : ℤ} {k p : ℕ} (hk : (ids.idxsOf id)[k]? = some p) (m : ℕ) :
    p < m ↔ k < (ids.take m).count id := by
  obtain ⟨hlen, rfl⟩ := List.getElem?_eq_some_iff.mp hk
  have htake : (ids.take m).idxsOf id = (ids.idxsOf id).take ((ids.take m).count id) := List.idxsOf_take
  constructor
  · intro hlt
    have hmem : (ids.idxsOf id)[k] ∈ (ids.take m).idxsOf id := by
      have hp := List.getElem_idxsOf_lt hlen
      rw [List.mem_idxsOf_iff_exists_getElem_pos]
      refine ⟨by simp only [List.length_take]; omega, ?_⟩
      rw [List.getElem_take]
      exact List.getElem_getElem_idxsOf hlen
    rw [htake] at hmem
    obtain ⟨k', hk', heq⟩ := List.getElem_of_mem hmem
    rw [List.getElem_take] at heq
    rw [List.length_take] at hk'
    have : k' = k := (List.Nodup.getElem_inj_iff List.nodup_idxsOf).mp heq
    omega
  · intro hlt
    have hmem : (ids.idxsOf id)[k] ∈ (ids.take m).idxsOf id := by
      rw [htake, List.mem_take_iff_getElem]
      exact ⟨k, by omega, rfl⟩
    have := List.lt_add_of_mem_idxsOf _ hmem
    rw [List.length_take] at this
    omega

theorem idxsOf_lt_idxsOf {ids : List ℤ} {id : ℤ} {j k p q : ℕ} (hj : (ids.idxsOf id)[j]? = some p)
    (hk : (ids.idxsOf id)[k]? = some q) (hjk : j < k) : p < q := by
  obtain ⟨hjlen, rfl⟩ := List.getElem?_eq_some_iff.mp hj
  obtain ⟨hklen, rfl⟩ := List.getElem?_eq_some_iff.mp hk
  exact List.pairwise_iff_getElem.mp List.pairwise_idxsOf j k hjlen hklen hjk

theorem idxsOf_lt_length {ids : List ℤ} {id : ℤ} {k p : ℕ} (hk : (ids.idxsOf id)[k]? = some p) :
    p < ids.length := by
  obtain ⟨hlen, rfl⟩ := List.getElem?_eq_some_iff.mp hk
  exact List.getElem_idxsOf_lt hlen

/-- One entry for each message, in ascending order and within the request. -/
structure IsOffsetTable (count bound : ℕ) (table : List ℕ) : Prop where
  length : table.length = count
  ascending : table.Pairwise (· ≤ ·)
  within : ∀ t ∈ table, t ≤ bound

namespace Dsv4

/-! ## The markers of messages -/

section Markers

variable (userPos asstPos eosPos : List ℕ) (start : ℕ)

/-- Where the cursor for assistants is after `j` messages of users. -/
def asstCursor : ℕ → ℕ
  | 0 => 0
  | j + 1 => ((userLikeEnd userPos asstPos (start + j) (asstCursor j)).map Prod.snd).getD (asstCursor j)

/-- The marker at which message `j` of the users ends. -/
def roleEnd (j : ℕ) : Option ℕ :=
  (userLikeEnd userPos asstPos (start + j) (asstCursor userPos asstPos start j)).map Prod.fst

/-- How many messages of the role come before message `i`. -/
def countRole (role : MarkerRole) (messages : List Json) (i : ℕ) : ℕ :=
  (messages.take i).countP fun msg => decide (markerRole msg = role)

/-- Where message `i` ends if `j` messages of users and `k` of the assistant came before. -/
def endFrom (j k : ℕ) (messages : List Json) (i : ℕ) : Option ℕ :=
  messages[i]?.bind fun msg =>
    match markerRole msg with
    | .userLike => roleEnd userPos asstPos start (j + countRole .userLike messages i)
    | .assistant => (eosPos[k + countRole .assistant messages i]?).map (· + 1)
    | .unknown => none

end Markers

def opensWithSystem (messages : List Json) : Bool := messages.head?.any fun msg => isRole msg "system"

/-- Where message `i` ends, by the markers alone. -/
def messageEnd (userPos asstPos eosPos : List ℕ) (messages : List Json) (i : ℕ) : Option ℕ :=
  if opensWithSystem messages then
    if i = 0 then userPos[0]? else endFrom userPos asstPos eosPos 1 0 0 messages i
  else endFrom userPos asstPos eosPos 0 0 0 messages i

section Scan

variable {userPos asstPos eosPos : List ℕ} {start j k i : ℕ} {msg : Json} {msgs messages : List Json}
  {table : List ℕ}

theorem countRole_cons_succ (role : MarkerRole) (msg : Json) (msgs : List Json) (i : ℕ) :
    countRole role (msg :: msgs) (i + 1) =
      (if markerRole msg = role then 1 else 0) + countRole role msgs i := by
  rw [countRole, List.take_succ_cons, List.countP_cons, Nat.add_comm]
  simp [countRole]

theorem countRole_succ (role : MarkerRole) (hmsg : messages[i]? = some msg) :
    countRole role messages (i + 1) =
      countRole role messages i + if markerRole msg = role then 1 else 0 := by
  rw [countRole, List.take_add_one, hmsg, List.countP_append]
  simp [countRole]

theorem asstCursor_succ {p a : ℕ}
    (h : userLikeEnd userPos asstPos (start + j) (asstCursor userPos asstPos start j) = some (p, a)) :
    asstCursor userPos asstPos start (j + 1) = a := by
  rw [asstCursor, h]
  rfl

theorem scan_eq_some_iff (start j k : ℕ) :
    scan userPos asstPos eosPos (start + j) (asstCursor userPos asstPos start j) k msgs = some table ↔
    table.map some = (List.range msgs.length).map (endFrom userPos asstPos eosPos start j k msgs) := by
  induction msgs generalizing j k table with
  | nil => cases table <;> simp [scan]
  | cons msg msgs ih =>
    rw [List.length_cons, List.range_succ_eq_map, List.map_cons, List.map_map, scan]
    cases hrole : markerRole msg with
    | unknown =>
      have hend : endFrom userPos asstPos eosPos start j k (msg :: msgs) 0 = none := by
        simp [endFrom, hrole]
      rw [hend]
      cases table <;> simp
    | userLike =>
      have hend : endFrom userPos asstPos eosPos start j k (msg :: msgs) 0 =
          roleEnd userPos asstPos start j := by
        simp [endFrom, hrole, countRole]
      -- the other ends are those of the rest, with one more user behind the cursor
      have htail : endFrom userPos asstPos eosPos start j k (msg :: msgs) ∘ Nat.succ =
          endFrom userPos asstPos eosPos start (j + 1) k msgs := by
        funext i
        simp only [Function.comp_apply, endFrom, Nat.succ_eq_add_one, List.getElem?_cons_succ,
          countRole_cons_succ, hrole, if_true, reduceCtorEq, if_false, Nat.zero_add, Nat.add_assoc]
      rw [hend, htail, roleEnd]
      cases hstep : userLikeEnd userPos asstPos (start + j) (asstCursor userPos asstPos start j) with
      | none => cases table <;> simp
      | some step =>
        obtain ⟨p, a⟩ := step
        simp only [Option.bind_eq_bind, Option.bind_some, Option.map_some,
          ← asstCursor_succ hstep, Nat.add_assoc]
        cases table with
        | nil => cases scan userPos asstPos eosPos (start + (j + 1)) _ k msgs <;> simp
        | cons q rest =>
          rw [List.map_cons, List.cons.injEq, ← ih]
          cases scan userPos asstPos eosPos (start + (j + 1)) _ k msgs <;>
            simp [eq_comm]
    | assistant =>
      have hend : endFrom userPos asstPos eosPos start j k (msg :: msgs) 0 =
          (eosPos[k]?).map (· + 1) := by
        simp [endFrom, hrole, countRole]
      -- the other ends are those of the rest, with one more assistant behind the cursor
      have htail : endFrom userPos asstPos eosPos start j k (msg :: msgs) ∘ Nat.succ =
          endFrom userPos asstPos eosPos start j (k + 1) msgs := by
        funext i
        simp only [Function.comp_apply, endFrom, Nat.succ_eq_add_one, List.getElem?_cons_succ,
          countRole_cons_succ, hrole, if_true, reduceCtorEq, if_false, Nat.zero_add, Nat.add_assoc]
      rw [hend, htail]
      cases hp : eosPos[k]? with
      | none => cases table <;> simp
      | some p =>
        simp only [Option.bind_eq_bind, Option.bind_some, Option.map_some]
        cases table with
        | nil => cases scan userPos asstPos eosPos (start + j) _ (k + 1) msgs <;> simp
        | cons q rest =>
          rw [List.map_cons, List.cons.injEq, ← ih]
          cases scan userPos asstPos eosPos (start + j) _ (k + 1) msgs <;>
            simp [eq_comm]

theorem markerRole_system (h : isRole msg "system" = true) : markerRole msg = .unknown := by
  unfold isRole at h
  unfold markerRole isRole
  split at h
  · next s hs =>
    have hs' : s = "system" := of_decide_eq_true h
    subst hs'
    rfl
  · cases h

theorem scanAll_eq_some_iff : scanAll userPos asstPos eosPos messages = some table ↔
    table.map some = (List.range messages.length).map (messageEnd userPos asstPos eosPos messages) := by
  cases messages with
  | nil => cases table <;> simp [scanAll]
  | cons msg msgs =>
    cases hsys : isRole msg "system" with
    | false =>
      have hend : messageEnd userPos asstPos eosPos (msg :: msgs) =
          endFrom userPos asstPos eosPos 0 0 0 (msg :: msgs) := by
        funext i
        simp [messageEnd, opensWithSystem, hsys]
      rw [scanAll, hsys, if_neg (by simp), hend]
      exact scan_eq_some_iff 0 0 0
    | true =>
      have hzero : messageEnd userPos asstPos eosPos (msg :: msgs) 0 = userPos[0]? := by
        simp [messageEnd, opensWithSystem, hsys]
      have hsucc : messageEnd userPos asstPos eosPos (msg :: msgs) ∘ Nat.succ =
          endFrom userPos asstPos eosPos 1 0 0 msgs := by
        funext i
        simp [messageEnd, opensWithSystem, hsys, endFrom, countRole_cons_succ,
          markerRole_system hsys]
      rw [scanAll, if_pos hsys, List.length_cons, List.range_succ_eq_map, List.map_cons,
        List.map_map, hzero, hsucc]
      have hscan (rest : List ℕ) : scan userPos asstPos eosPos 1 0 0 msgs = some rest ↔
          rest.map some = (List.range msgs.length).map (endFrom userPos asstPos eosPos 1 0 0 msgs) :=
        scan_eq_some_iff 1 0 0
      cases hp : userPos[0]? with
      | none => cases table <;> simp
      | some p =>
        simp only [Option.bind_eq_bind, Option.bind_some]
        cases table with
        | nil => cases scan userPos asstPos eosPos 1 0 0 msgs <;> simp
        | cons q rest =>
          rw [List.map_cons, List.cons.injEq, ← hscan]
          cases scan userPos asstPos eosPos 1 0 0 msgs <;> simp [eq_comm]

theorem length_of_scanAll (h : scanAll userPos asstPos eosPos messages = some table) :
    table.length = messages.length := by
  simpa using congrArg List.length (scanAll_eq_some_iff.mp h)

theorem getElem?_of_scanAll (h : scanAll userPos asstPos eosPos messages = some table)
    (hi : i < messages.length) : messageEnd userPos asstPos eosPos messages i = table[i]? := by
  have hlen := length_of_scanAll h
  have hget := congrArg (fun l => l[i]?) (scanAll_eq_some_iff.mp h)
  simp only [List.getElem?_map, List.getElem?_range hi, Option.map_some,
    List.getElem?_eq_getElem (show i < table.length by omega), Option.some.injEq] at hget
  rw [← hget, List.getElem?_eq_getElem (by omega)]

theorem exists_scanAll
    (h : ∀ i, i < messages.length → messageEnd userPos asstPos eosPos messages i ≠ none) :
    ∃ table, scanAll userPos asstPos eosPos messages = some table := by
  refine ⟨(List.range messages.length).map fun i =>
    (messageEnd userPos asstPos eosPos messages i).getD 0, scanAll_eq_some_iff.mpr ?_⟩
  rw [List.map_map]
  refine List.map_congr_left fun i hi => ?_
  obtain ⟨p, hp⟩ := Option.ne_none_iff_exists'.mp (h i (List.mem_range.mp hi))
  simp [hp]

end Scan

/-! ## Markers in order -/

section Order

variable {ids : List ℤ} {eosId userId asstId : ℤ} {start j i u a a' p q : ℕ} {msg next : Json}
  {messages : List Json} {table : List ℕ}

theorem userLikeEnd_cases {userPos asstPos : List ℕ}
    (h : userLikeEnd userPos asstPos u a = some (p, a')) :
    (asstPos[a]? = some p ∧ a' = a + 1 ∧ ∀ r, userPos[u + 1]? = some r → p < r) ∨
    (userPos[u + 1]? = some p ∧ a' = a ∧ ∀ r, asstPos[a]? = some r → p ≤ r) := by
  rw [userLikeEnd] at h
  split at h
  · next pa pu ha hu =>
    split at h
    · next hlt =>
      cases h
      exact Or.inl ⟨ha, rfl, fun r hr => by rw [hu] at hr; cases hr; exact hlt⟩
    · next hge =>
      cases h
      exact Or.inr ⟨hu, rfl, fun r hr => by rw [ha] at hr; cases hr; omega⟩
  · next pa ha hu =>
    cases h
    exact Or.inl ⟨ha, rfl, fun r hr => by rw [hu] at hr; cases hr⟩
  · next pu ha hu =>
    cases h
    exact Or.inr ⟨hu, rfl, fun r hr => by rw [ha] at hr; cases hr⟩
  · cases h

/-- The cursor for users goes on with every message of a user. -/
theorem roleEnd_le_succ (hp : roleEnd (ids.idxsOf userId) (ids.idxsOf asstId) start j = some p)
    (hq : roleEnd (ids.idxsOf userId) (ids.idxsOf asstId) start (j + 1) = some q) : p ≤ q := by
  obtain ⟨⟨p', a⟩, hstep, rfl⟩ := Option.map_eq_some_iff.mp hp
  obtain ⟨⟨q', b⟩, hstep', rfl⟩ := Option.map_eq_some_iff.mp hq
  rw [asstCursor_succ hstep] at hstep'
  have huser {r : ℕ} (hr : (ids.idxsOf userId)[start + (j + 1) + 1]? = some r) :
      ∃ r', (ids.idxsOf userId)[start + j + 1]? = some r' ∧ r' < r := by
    have hlen := (List.getElem?_eq_some_iff.mp hr).1
    have hr' := List.getElem?_eq_getElem (show start + j + 1 < (ids.idxsOf userId).length by omega)
    exact ⟨_, hr', idxsOf_lt_idxsOf hr' hr (by omega)⟩
  rcases userLikeEnd_cases hstep with ⟨ha, rfl, hnext⟩ | ⟨hu, rfl, hnext⟩
  · rcases userLikeEnd_cases hstep' with ⟨ha', -, -⟩ | ⟨hu', -, -⟩
    · exact Nat.le_of_lt (idxsOf_lt_idxsOf ha ha' (Nat.lt_succ_self _))
    · obtain ⟨r, hr, hlt⟩ := huser hu'
      exact Nat.le_of_lt (Nat.lt_trans (hnext r hr) hlt)
  · rcases userLikeEnd_cases hstep' with ⟨ha', -, -⟩ | ⟨hu', -, -⟩
    · exact hnext q' ha'
    · obtain ⟨r, hr, hlt⟩ := huser hu'
      rw [hu] at hr
      cases hr
      exact Nat.le_of_lt hlt

theorem roleEnd_lt_length (hp : roleEnd (ids.idxsOf userId) (ids.idxsOf asstId) start j = some p) :
    p < ids.length := by
  obtain ⟨⟨p', a⟩, hstep, rfl⟩ := Option.map_eq_some_iff.mp hp
  rcases userLikeEnd_cases hstep with ⟨ha, -, -⟩ | ⟨hu, -, -⟩
  · exact idxsOf_lt_length ha
  · exact idxsOf_lt_length hu

/-- Where a message ends in the tokens of a request. -/
def Scanned.messageEnd (s : Scanned) (messages : List Json) (i : ℕ) : Option ℕ :=
  Dsv4.messageEnd (s.ids.idxsOf s.userId) (s.ids.idxsOf s.asstId) (s.ids.idxsOf s.eosId) messages i

/-- Every message has a known role and its marker. -/
def Scanned.Complete (s : Scanned) (messages : List Json) : Prop :=
  ∀ i, i < messages.length → s.messageEnd messages i ≠ none

/-- The cursors agree: up to the marker that ends a message of a user, or the system's, there are as
many ends of sentence as messages of the assistant before it, and no marker of an assistant stands
before the first user. -/
structure Scanned.MarkersMatch (s : Scanned) (messages : List Json) : Prop where
  notAhead : ∀ i msg next p, messages[i]? = some msg → messages[i + 1]? = some next →
    markerRole msg ≠ .assistant → markerRole next = .assistant → s.messageEnd messages i = some p →
    (s.ids.take (p - 1)).count s.eosId ≤ countRole .assistant messages i
  notBehind : ∀ i msg next p, messages[i]? = some msg → messages[i + 1]? = some next →
    markerRole msg = .assistant → markerRole next = .userLike →
    s.messageEnd messages (i + 1) = some p →
    countRole .assistant messages (i + 1) ≤ (s.ids.take p).count s.eosId
  opening : ∀ next p a, opensWithSystem messages = true → messages[1]? = some next →
    markerRole next = .userLike → (s.ids.idxsOf s.userId)[0]? = some p →
    (s.ids.idxsOf s.asstId)[0]? = some a → p ≤ a

theorem messageEnd_assistant {s : Scanned} (hmsg : messages[i]? = some msg)
    (hrole : markerRole msg = .assistant) : s.messageEnd messages i =
      ((s.ids.idxsOf s.eosId)[countRole .assistant messages i]?).map (· + 1) := by
  rw [Scanned.messageEnd, Dsv4.messageEnd]
  split
  · next hsys =>
    split
    · next hzero =>
      subst hzero
      rw [opensWithSystem, List.head?_eq_getElem?, hmsg, Option.any_some] at hsys
      rw [markerRole_system hsys] at hrole
      cases hrole
    · simp [endFrom, hmsg, hrole]
  · simp [endFrom, hmsg, hrole]

theorem messageEnd_userLike {s : Scanned} (hmsg : messages[i]? = some msg)
    (hrole : markerRole msg = .userLike) : s.messageEnd messages i =
      roleEnd (s.ids.idxsOf s.userId) (s.ids.idxsOf s.asstId)
        (if opensWithSystem messages then 1 else 0) (countRole .userLike messages i) := by
  rw [Scanned.messageEnd, Dsv4.messageEnd]
  split
  · next hsys =>
    split
    · next hzero =>
      subst hzero
      rw [opensWithSystem, List.head?_eq_getElem?, hmsg, Option.any_some] at hsys
      rw [markerRole_system hsys] at hrole
      cases hrole
    · simp [endFrom, hmsg, hrole]
  · simp [endFrom, hmsg, hrole]

/-- Only the message of the system at the start has another end. -/
theorem messageEnd_unknown {s : Scanned} (hmsg : messages[i]? = some msg)
    (hrole : markerRole msg = .unknown) (hp : s.messageEnd messages i = some p) :
    opensWithSystem messages = true ∧ i = 0 ∧ (s.ids.idxsOf s.userId)[0]? = some p := by
  rw [Scanned.messageEnd, Dsv4.messageEnd] at hp
  split at hp
  · next hsys =>
    split at hp
    · next hzero => exact ⟨hsys, hzero, hp⟩
    · simp [endFrom, hmsg, hrole] at hp
  · simp [endFrom, hmsg, hrole] at hp

theorem countRole_one (hsys : opensWithSystem messages = true) (role : MarkerRole)
    (hrole : role ≠ .unknown) : countRole role messages 1 = 0 := by
  cases messages with
  | nil => rfl
  | cons msg msgs =>
    have hmsg : isRole msg "system" = true := by simpa [opensWithSystem] using hsys
    rw [show 1 = 0 + 1 from rfl, countRole_cons_succ, markerRole_system hmsg, if_neg hrole.symm]
    simp [countRole]

/-- The marker of the first user is the end of the system's message, and comes before what follows. -/
theorem opening_le_iff {s : Scanned} (hsys : opensWithSystem messages = true)
    (hnext : messages[1]? = some next) (hrole : markerRole next = .userLike)
    (hp : (s.ids.idxsOf s.userId)[0]? = some p) (hq : s.messageEnd messages 1 = some q) :
    p ≤ q ↔ ∀ a, (s.ids.idxsOf s.asstId)[0]? = some a → p ≤ a := by
  rw [messageEnd_userLike hnext hrole, if_pos hsys, countRole_one hsys .userLike (by simp)] at hq
  obtain ⟨⟨q', b⟩, hstep, rfl⟩ := Option.map_eq_some_iff.mp hq
  rcases userLikeEnd_cases hstep with ⟨ha, -, -⟩ | ⟨hu, -, hbefore⟩
  · constructor
    · intro hle a ha'
      rw [show asstCursor (s.ids.idxsOf s.userId) (s.ids.idxsOf s.asstId) 1 0 = 0 from rfl, ha'] at ha
      cases ha
      exact hle
    · exact fun h => h q' ha
  · have hlt : p < q' := idxsOf_lt_idxsOf hp hu (by omega)
    exact iff_of_true (Nat.le_of_lt hlt) fun a ha => Nat.le_trans (Nat.le_of_lt hlt) (hbefore a ha)

theorem messageEnd_le_length {s : Scanned} (hp : s.messageEnd messages i = some p)
    (hmsg : messages[i]? = some msg) : p ≤ s.ids.length := by
  cases hrole : markerRole msg with
  | userLike =>
    rw [messageEnd_userLike hmsg hrole] at hp
    exact Nat.le_of_lt (roleEnd_lt_length hp)
  | assistant =>
    rw [messageEnd_assistant hmsg hrole] at hp
    obtain ⟨e, he, rfl⟩ := Option.map_eq_some_iff.mp hp
    exact idxsOf_lt_length he
  | unknown => exact Nat.le_of_lt (idxsOf_lt_length (messageEnd_unknown hmsg hrole hp).2.2)

theorem Scanned.MarkersMatch.le_succ {s : Scanned} (h : s.MarkersMatch messages)
    (hmsg : messages[i]? = some msg) (hnext : messages[i + 1]? = some next)
    (hp : s.messageEnd messages i = some p) (hq : s.messageEnd messages (i + 1) = some q) : p ≤ q := by
  cases hnrole : markerRole next with
  | unknown => exact absurd (messageEnd_unknown hnext hnrole hq).2.1 (Nat.succ_ne_zero i)
  | assistant =>
    have hq' := hq
    rw [messageEnd_assistant hnext hnrole, countRole_succ .assistant hmsg] at hq'
    obtain ⟨e, he, rfl⟩ := Option.map_eq_some_iff.mp hq'
    by_cases hrole : markerRole msg = .assistant
    · rw [messageEnd_assistant hmsg hrole] at hp
      obtain ⟨d, hd, rfl⟩ := Option.map_eq_some_iff.mp hp
      rw [if_pos hrole] at he
      exact Nat.succ_le_succ (Nat.le_of_lt (idxsOf_lt_idxsOf hd he (Nat.lt_succ_self _)))
    · rw [if_neg hrole] at he
      have hcount := h.notAhead i msg next p hmsg hnext hrole hnrole hp
      have hlt := (idxsOf_lt_iff he (p - 1)).mp
      omega
  | userLike =>
    cases hrole : markerRole msg with
    | userLike =>
      rw [messageEnd_userLike hmsg hrole] at hp
      rw [messageEnd_userLike hnext hnrole, countRole_succ .userLike hmsg, if_pos hrole] at hq
      exact roleEnd_le_succ hp hq
    | assistant =>
      have hcount := h.notBehind i msg next q hmsg hnext hrole hnrole hq
      rw [countRole_succ .assistant hmsg, if_pos hrole] at hcount
      rw [messageEnd_assistant hmsg hrole] at hp
      obtain ⟨e, he, rfl⟩ := Option.map_eq_some_iff.mp hp
      exact (idxsOf_lt_iff he q).mpr (by omega)
    | unknown =>
      obtain ⟨hsys, rfl, hp'⟩ := messageEnd_unknown hmsg hrole hp
      exact (opening_le_iff hsys hnext hnrole hp' hq).mpr fun a ha =>
        h.opening next p a hsys hnext hnrole hp' ha

theorem markersMatch_of_le {s : Scanned} (hcomplete : s.Complete messages)
    (h : ∀ i p q, s.messageEnd messages i = some p → s.messageEnd messages (i + 1) = some q → p ≤ q) :
    s.MarkersMatch messages := by
  refine ⟨fun i msg next p hmsg hnext hrole hnrole hp => ?_,
    fun i msg next q hmsg hnext hrole hnrole hq => ?_, fun next p a hsys hnext hnrole hp ha => ?_⟩
  · obtain ⟨q, hq⟩ := Option.ne_none_iff_exists'.mp
      (hcomplete (i + 1) (List.getElem?_eq_some_iff.mp hnext).1)
    have hle := h i p q hp hq
    rw [messageEnd_assistant hnext hnrole, countRole_succ .assistant hmsg, if_neg hrole] at hq
    obtain ⟨e, he, rfl⟩ := Option.map_eq_some_iff.mp hq
    have hlt := (idxsOf_lt_iff he (p - 1)).mpr
    omega
  · obtain ⟨p, hp⟩ := Option.ne_none_iff_exists'.mp (hcomplete i (List.getElem?_eq_some_iff.mp hmsg).1)
    have hle := h i p q hp hq
    rw [messageEnd_assistant hmsg hrole] at hp
    obtain ⟨e, he, rfl⟩ := Option.map_eq_some_iff.mp hp
    rw [countRole_succ .assistant hmsg, if_pos hrole]
    exact (idxsOf_lt_iff he q).mp hle
  · obtain ⟨q, hq⟩ := Option.ne_none_iff_exists'.mp (hcomplete 1 (List.getElem?_eq_some_iff.mp hnext).1)
    have hzero : s.messageEnd messages 0 = some p := by
      rw [Scanned.messageEnd, Dsv4.messageEnd, if_pos hsys, if_pos rfl]
      exact hp
    exact (opening_le_iff hsys hnext hnrole hp hq).mp (h 0 p q hzero hq) a ha

theorem Scanned.table_iff (s : Scanned) (messages : List Json) :
    (∀ table, scanAll (s.ids.idxsOf s.userId) (s.ids.idxsOf s.asstId) (s.ids.idxsOf s.eosId) messages =
        some table → IsOffsetTable messages.length s.ids.length table) ↔
      (s.Complete messages → s.MarkersMatch messages) := by
  constructor
  · intro h hcomplete
    obtain ⟨table, htable⟩ := exists_scanAll hcomplete
    have hsound := h table htable
    refine markersMatch_of_le hcomplete fun i p q hp hq => ?_
    by_cases hi : i + 1 < messages.length
    · rw [Scanned.messageEnd, getElem?_of_scanAll htable (by omega)] at hp
      rw [Scanned.messageEnd, getElem?_of_scanAll htable hi] at hq
      exact getElem?_le_of_le hsound.ascending hp hq (Nat.le_succ i)
    · have hnone : messages[i + 1]? = none := List.getElem?_eq_none (by omega)
      simp [Scanned.messageEnd, Dsv4.messageEnd, endFrom, hnone] at hq
  · intro h table htable
    have hend (i : ℕ) (hi : i < messages.length) : s.messageEnd messages i = table[i]? :=
      getElem?_of_scanAll htable hi
    have hlen := length_of_scanAll htable
    have hcomplete : s.Complete messages := by
      intro i hi
      rw [hend i hi, List.getElem?_eq_getElem (by omega)]
      exact Option.some_ne_none _
    have hmatch := h hcomplete
    refine ⟨hlen, List.isChain_iff_pairwise.mp (List.isChain_iff_getElem.mpr fun i hi => ?_),
      fun t ht => ?_⟩
    · exact hmatch.le_succ (List.getElem?_eq_getElem (by omega)) (List.getElem?_eq_getElem (by omega))
        ((hend i (by omega)).trans (List.getElem?_eq_getElem (by omega)))
        ((hend (i + 1) (by omega)).trans (List.getElem?_eq_getElem hi))
    · obtain ⟨i, hi⟩ := List.mem_iff_getElem?.mp ht
      have hlt := (List.getElem?_eq_some_iff.mp hi).1
      exact messageEnd_le_length ((hend i (by omega)).trans hi) (List.getElem?_eq_getElem (by omega))

end Order

theorem renderForTable_of_scanned {tok : Tokenizer} {messages : List Json} {tools : Option (List Json)}
    {s : Scanned} (h : scanned tok messages tools = some s) :
    tok.renderForTable messages tools true = .ok (.ids s.ids) := by
  simp only [scanned, Option.bind_eq_bind, Option.bind_eq_some_iff] at h
  obtain ⟨eosId, -, userId, -, asstId, -, hids⟩ := h
  split at hids
  · next ids hrender =>
    split at hids
    · cases hids
    · cases hids
      exact hrender
  · cases hids

theorem length_locateTools {full : List Char} {tools : List Json} {searchFrom : ℕ} {charPositions : List ℕ}
    (h : locateTools full searchFrom tools = some charPositions) :
    charPositions.length = tools.length := by
  induction tools generalizing searchFrom charPositions with
  | nil =>
    cases h
    rfl
  | cons tool tools ih =>
    simp only [locateTools, Option.bind_eq_bind, Option.bind_eq_some_iff] at h
    obtain ⟨name, -, nmIdx, -, objOpen, -, rest, hrest, heq⟩ := h
    cases heq
    rw [List.length_cons, ih hrest, List.length_cons]

end Dsv4

/-! ## Tables of the other calculator -/

namespace Standard

variable {tok : Tokenizer} {messages : List Json} {tools : Option (List Json)} {table : List ℕ}

theorem isOffsetTable_tableOf {count : ℕ} {markerId : ℤ} {rendered : Rendered}
    (h : tableOf count markerId rendered = some table) :
    ∃ ids, rendered = .ids ids ∧ IsOffsetTable count ids.length table := by
  cases rendered with
  | text text => cases h
  | other => cases h
  | ids ids =>
    refine ⟨ids, rfl, ?_⟩
    simp only [tableOf] at h
    split at h
    · cases h
    · split at h
      · cases h
        refine ⟨by simp, List.pairwise_map.mpr (List.pairwise_lt_range.imp ?_), fun t ht => ?_⟩
        · intro i j hij
          cases hj : (ids.idxsOf markerId)[j + 1]? with
          | none =>
            cases hi : (ids.idxsOf markerId)[i + 1]? with
            | none => exact Nat.le_refl _
            | some p => exact Nat.le_of_lt (idxsOf_lt_length hi)
          | some q =>
            have hlen := (List.getElem?_eq_some_iff.mp hj).1
            have hi := List.getElem?_eq_getElem (show i + 1 < (ids.idxsOf markerId).length by omega)
            rw [hi]
            exact Nat.le_of_lt (idxsOf_lt_idxsOf hi hj (Nat.succ_lt_succ hij))
        · obtain ⟨i, -, rfl⟩ := List.mem_map.mp ht
          cases hi : (ids.idxsOf markerId)[i + 1]? with
          | none => exact Nat.le_refl _
          | some p => exact Nat.le_of_lt (idxsOf_lt_length hi)
      · cases h

theorem isOffsetTable_buildMessagesOffsetTable
    (h : buildMessagesOffsetTable tok messages tools = .ok (some table)) :
    ∃ ids, tok.renderForTable messages tools true = .ok (.ids ids) ∧
      IsOffsetTable messages.length ids.length table := by
  rw [buildMessagesOffsetTable] at h
  split at h
  · cases h
  · split at h
    · cases h
    · next markerId _ =>
      rw [Tokenizer.renderForTable]
      split at h
      · next rendered hcall =>
        obtain ⟨ids, rfl, htable⟩ := isOffsetTable_tableOf (Except.ok.inj h)
        exact ⟨ids, by rw [hcall], htable⟩
      · next hcall =>
        cases hagain : tok.applyChatTemplate ⟨messages, tools, Tokenizer.tableKwargs true⟩ with
        | error e =>
          rw [hagain] at h
          cases h
        | ok rendered =>
          rw [hagain] at h
          obtain ⟨ids, rfl, htable⟩ := isOffsetTable_tableOf (Except.ok.inj h)
          exact ⟨ids, by rw [hcall], htable⟩
      · cases h

theorem length_locateTools {full : List Char} {tools : List Json} {searchFrom : ℕ} {charPositions : List ℕ}
    (h : locateTools tok messages full searchFrom tools = some charPositions) :
    charPositions.length = tools.length := by
  induction tools generalizing searchFrom charPositions with
  | nil =>
    cases h
    rfl
  | cons tool tools ih =>
    rw [locateTools] at h
    split at h
    · simp only [Option.bind_eq_bind, Option.bind_eq_some_iff] at h
      obtain ⟨name, -, alone, -, idx, -, rest, hrest, heq⟩ := h
      cases heq
      rw [List.length_cons, ih hrest, List.length_cons]
    · cases h

end Standard

/-! ## Tables of tools -/

/-- The start of each tool and the end of the last one, in ascending order. -/
structure IsToolOffsets (count : ℕ) (table : List ℕ) : Prop where
  length : table.length = count + 1
  ascending : table.Pairwise (· ≤ ·)

section Tools

variable {tok : Tokenizer} {messages : List Json} {tools : Option (List Json)} {table : List ℕ}

theorem length_mapM_ok {α β ε : Type} {f : α → Except ε β} {l : List α} {r : List β}
    (h : l.mapM f = .ok r) : r.length = l.length := by
  induction l generalizing r with
  | nil =>
    cases h
    rfl
  | cons a l ih =>
    rw [List.mapM_cons] at h
    cases hfa : f a with
    | error e =>
      rw [hfa] at h
      cases h
    | ok b =>
      rw [hfa] at h
      cases hrest : l.mapM f with
      | error e =>
        simp only [hrest] at h
        cases h
      | ok rest =>
        simp only [hrest] at h
        cases h
        rw [List.length_cons, ih hrest, List.length_cons]

theorem isToolOffsets_tokenPositions {full : List Char} {charPositions : List ℕ} {stop count : ℕ}
    (hlen : charPositions.length = count)
    (h : tokenPositions tok full (charPositions ++ [stop]) = some table) : IsToolOffsets count table := by
  rw [tokenPositions] at h
  split at h
  · cases h
  · next prefixes hprefixes =>
    simp only at h
    split at h
    · next hchain =>
      cases h
      refine ⟨?_, List.isChain_iff_pairwise.mp hchain⟩
      rw [List.length_map, length_mapM_ok hprefixes, List.length_append, hlen]
      rfl
    · cases h

theorem Dsv4.isToolOffsets (h : Dsv4.buildToolsOffsetTable tok messages tools = some table) :
    IsToolOffsets (tools.getD []).length table := by
  unfold Dsv4.buildToolsOffsetTable at h
  split at h
  · cases h
  · cases h
  · split at h
    · split at h
      · cases h
      · split at h
        · simp only at h
          split at h
          · cases h
          · obtain ⟨charPositions, hlocated, htokens⟩ := Option.bind_eq_some_iff.mp h
            exact isToolOffsets_tokenPositions (Dsv4.length_locateTools hlocated) htokens
        · cases h
    · cases h

theorem Standard.isToolOffsets (h : Standard.buildToolsOffsetTable tok messages tools = some table) :
    IsToolOffsets (tools.getD []).length table := by
  unfold Standard.buildToolsOffsetTable at h
  split at h
  · cases h
  · cases h
  · split at h
    · simp only at h
      split at h
      · cases h
      · obtain ⟨charPositions, hlocated, htokens⟩ := Option.bind_eq_some_iff.mp h
        exact isToolOffsets_tokenPositions (Standard.length_locateTools hlocated) htokens
    · cases h

end Tools

/-! ## All tables -/

/-- What is promised for the tables of a request. -/
structure TablesSound (tok : Tokenizer) (messages : List Json) (tools : Option (List Json)) : Prop where
  dsv4Messages : ∀ table, Dsv4.buildMessagesOffsetTable tok messages tools = some table →
    ∃ ids, tok.renderForTable messages tools true = .ok (.ids ids) ∧
      IsOffsetTable messages.length ids.length table
  standardMessages : ∀ table, Standard.buildMessagesOffsetTable tok messages tools = .ok (some table) →
    ∃ ids, tok.renderForTable messages tools true = .ok (.ids ids) ∧
      IsOffsetTable messages.length ids.length table
  dsv4Tools : ∀ table, Dsv4.buildToolsOffsetTable tok messages tools = some table →
    IsToolOffsets (tools.getD []).length table
  standardTools : ∀ table, Standard.buildToolsOffsetTable tok messages tools = some table →
    IsToolOffsets (tools.getD []).length table

/-- **The tables keep their promise exactly if the cursors of the scan agree** on a request in which
every message has its marker. -/
theorem tables_sound_iff (tok : Tokenizer) (messages : List Json) (tools : Option (List Json)) :
    TablesSound tok messages tools ↔
      ∀ s, Dsv4.scanned tok messages tools = some s → s.Complete messages → s.MarkersMatch messages := by
  have hbuild (s : Dsv4.Scanned) (hs : Dsv4.scanned tok messages tools = some s)
      (hne : messages.isEmpty = false) : Dsv4.buildMessagesOffsetTable tok messages tools =
        Dsv4.scanAll (s.ids.idxsOf s.userId) (s.ids.idxsOf s.asstId) (s.ids.idxsOf s.eosId) messages := by
    rw [Dsv4.buildMessagesOffsetTable, hne, if_neg (by simp), hs]
    rfl
  constructor
  · intro h s hs
    cases hne : messages.isEmpty with
    | true =>
      rw [List.isEmpty_iff.mp hne]
      exact fun _ => ⟨fun i msg _ _ hmsg => by simp at hmsg, fun i msg _ _ hmsg => by simp at hmsg,
        fun _ _ _ _ hnext => by simp at hnext⟩
    | false =>
      refine (s.table_iff messages).mp fun table htable => ?_
      obtain ⟨ids, hids, hsound⟩ := h.dsv4Messages table ((hbuild s hs hne).trans htable)
      rw [Dsv4.renderForTable_of_scanned hs] at hids
      cases hids
      exact hsound
  · intro h
    refine ⟨fun table htable => ?_, fun table => Standard.isOffsetTable_buildMessagesOffsetTable,
      fun table => Dsv4.isToolOffsets, fun table => Standard.isToolOffsets⟩
    cases hne : messages.isEmpty with
    | true =>
      rw [Dsv4.buildMessagesOffsetTable, if_pos hne] at htable
      cases htable
    | false =>
      cases hs : Dsv4.scanned tok messages tools with
      | none =>
        rw [Dsv4.buildMessagesOffsetTable, hne, if_neg (by simp), hs] at htable
        cases htable
      | some s =>
        exact ⟨s.ids, Dsv4.renderForTable_of_scanned hs,
          (s.table_iff messages).mpr (h s hs) table ((hbuild s hs hne).symm.trans htable)⟩

/-! ## A quoted marker -/

/-- A tokenizer that renders every request to the same tokens. -/
def fixedTokenizer (ids : List ℤ) : Tokenizer where
  isDsv4 := true
  applyChatTemplate _ := .ok (.ids ids)
  convertTokensToIds s := .ok
    (if s = Dsv4.userMarker then some 1
    else if s = Dsv4.assistantMarker then some 2
    else if s = Dsv4.eosMarker then some 3
    else none)
  unkTokenId := none
  encode s _ := .ok
    (if s = Dsv4.userMarker then [1]
    else if s = Dsv4.assistantMarker then [2]
    else if s = Dsv4.eosMarker then [3]
    else [])
  decode _ := .ok .other

/-- A question and its answer. -/
def questionAndAnswer : List Json :=
  [.obj [("role", .str "user"), ("content", .str "what is <｜end▁of▁sentence｜> for?")],
    .obj [("role", .str "assistant"), ("content", .str "it ends a sentence")]]

/-- The question quotes the end of sentence, so the answer ends before the question does. -/
theorem quotedMarker_decreases :
    Dsv4.buildMessagesOffsetTable (fixedTokenizer [0, 1, 3, 9, 2, 8, 3]) questionAndAnswer none =
      some [4, 3] ∧
    ¬TablesSound (fixedTokenizer [0, 1, 3, 9, 2, 8, 3]) questionAndAnswer none := by
  have htable : Dsv4.buildMessagesOffsetTable (fixedTokenizer [0, 1, 3, 9, 2, 8, 3]) questionAndAnswer
      none = some [4, 3] := by decide
  refine ⟨htable, fun h => ?_⟩
  obtain ⟨ids, -, hsound⟩ := h.dsv4Messages _ htable
  exact absurd hsound.ascending (by decide)

/-- Where the quotation is rendered as text, the cursors agree. -/
theorem plainQuestion_sound : TablesSound (fixedTokenizer [0, 1, 9, 2, 8, 3]) questionAndAnswer none ∧
    ∃ s, Dsv4.scanned (fixedTokenizer [0, 1, 9, 2, 8, 3]) questionAndAnswer none = some s ∧
      s.Complete questionAndAnswer ∧ s.MarkersMatch questionAndAnswer := by
  have hs : Dsv4.scanned (fixedTokenizer [0, 1, 9, 2, 8, 3]) questionAndAnswer none =
      some ⟨3, 1, 2, [0, 1, 9, 2, 8, 3]⟩ := rfl
  have hmatch : Dsv4.Scanned.MarkersMatch ⟨3, 1, 2, [0, 1, 9, 2, 8, 3]⟩ questionAndAnswer := by
    refine ⟨fun i msg next p hmsg hnext hrole hrole' hend => ?_,
      fun i msg next p hmsg hnext hrole _ _ => ?_, fun next p a hopen _ _ _ _ => by cases hopen⟩
    · obtain ⟨hi, -⟩ := List.getElem?_eq_some_iff.mp hnext
      obtain rfl : i = 0 := Nat.le_zero.mp (Nat.le_of_lt_succ (Nat.lt_of_succ_lt_succ hi))
      cases hend
      decide
    · obtain ⟨hi, -⟩ := List.getElem?_eq_some_iff.mp hnext
      obtain rfl : i = 0 := Nat.le_zero.mp (Nat.le_of_lt_succ (Nat.lt_of_succ_lt_succ hi))
      cases hmsg
      cases hrole
  refine ⟨(tables_sound_iff _ _ _).mpr fun s h _ => ?_, _, hs, ?_, hmatch⟩
  · cases hs.symm.trans h
    exact hmatch
  · unfold Dsv4.Scanned.Complete
    decide

end PyMotor.Coordinator
