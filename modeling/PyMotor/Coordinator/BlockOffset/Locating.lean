import PyMotor.Coordinator.BlockOffset.Contract

/-!
# Tools that can be located

Both tables of tools look for the names of the tools in the rendered text. Whatever the names are, there
is a text in which all of them are found (`Dsv4.exists_locateTools`, `Standard.exists_locateTools`); a
tool without a name is found in none.
-/

namespace PyMotor.Coordinator

/-! ## Occurrences -/

section Occurrences

variable {s pat : List Char} {start stop i j : ℕ}

theorem mem_occurrences : i ∈ occurrences s pat start ↔ i ≤ s.length ∧ start ≤ i ∧ pat <+: s.drop i := by
  simp only [occurrences, List.mem_filter, List.mem_range, Bool.and_eq_true, decide_eq_true_eq,
    List.isPrefixOf_iff_prefix, Nat.lt_succ_iff]

theorem find_eq_some_iff : find s pat start = some i ↔
    i ∈ occurrences s pat start ∧ ∀ j ∈ occurrences s pat start, i ≤ j := by
  have hhead : find s pat start = (List.range (s.length + 1)).find? fun i =>
      decide (start ≤ i) && pat.isPrefixOf (s.drop i) := List.head?_filter
  rw [hhead, List.find?_range_eq_some]
  unfold occurrences
  simp only [List.mem_filter]
  constructor
  · rintro ⟨hp, hi, hmin⟩
    refine ⟨⟨hi, hp⟩, fun j hj => ?_⟩
    by_contra hlt
    have hnot := hmin j (by omega)
    rw [hj.2] at hnot
    cases hnot
  · rintro ⟨⟨hi, hp⟩, hmin⟩
    refine ⟨hp, hi, fun j hj => ?_⟩
    by_contra hpj
    have hle := hmin j ⟨List.mem_range.mpr (by have := List.mem_range.mp hi; omega), by simpa using hpj⟩
    omega

theorem exists_find (h : i ∈ occurrences s pat start) :
    ∃ j, find s pat start = some j ∧ j ∈ occurrences s pat start ∧ j ≤ i := by
  cases hfind : find s pat start with
  | none =>
    rw [find, List.head?_eq_none_iff] at hfind
    rw [hfind] at h
    cases h
  | some j =>
    obtain ⟨hj, hmin⟩ := find_eq_some_iff.mp hfind
    exact ⟨j, rfl, hj, hmin i h⟩

theorem exists_rfind (h : i ∈ occurrences s pat start) (hstop : i + pat.length ≤ stop) :
    ∃ j, rfind s pat start stop = some j ∧ j ∈ occurrences s pat start ∧ j + pat.length ≤ stop := by
  cases hfind : rfind s pat start stop with
  | none =>
    rw [rfind, List.getLast?_eq_none_iff, List.filter_eq_nil_iff] at hfind
    exact absurd (decide_eq_true hstop) (hfind i h)
  | some j =>
    have hmem := List.mem_of_getLast? hfind
    rw [List.mem_filter, decide_eq_true_eq] at hmem
    exact ⟨j, rfl, hmem.1, hmem.2⟩

theorem singleton_mem_occurrences {c : Char} :
    i ∈ occurrences s [c] start ↔ start ≤ i ∧ s[i]? = some c := by
  rw [mem_occurrences]
  constructor
  · rintro ⟨-, hstart, t, ht⟩
    refine ⟨hstart, ?_⟩
    have hget := congrArg List.head? ht
    rw [List.head?_drop] at hget
    exact hget.symm
  · rintro ⟨hstart, hget⟩
    obtain ⟨hlen, hget⟩ := List.getElem?_eq_some_iff.mp hget
    refine ⟨by omega, hstart, s.drop (i + 1), ?_⟩
    rw [List.drop_eq_getElem_cons hlen, hget]
    rfl

end Occurrences

/-! ## The text of a tool -/

/-- What stands before the name of a tool. -/
def toolOpening : List Char := "\x7b\"type\": \"function\", ".toList

theorem length_toolOpening : toolOpening.length = 21 := by decide

def toolText (name : List Char) : List Char := toolOpening ++ nameMarker name

section ToolText

variable {full pre post name : List Char} {searchFrom : ℕ}

theorem drop_toolText (hfull : full = pre ++ toolText name ++ post) (k : ℕ) :
    full.drop (pre.length + k) = (toolText name ++ post).drop k := by
  rw [hfull, List.append_assoc, List.drop_append, List.drop_of_length_le (Nat.le_add_right _ _),
    Nat.add_sub_cancel_left, List.nil_append]

theorem drop_nameMarker (hfull : full = pre ++ toolText name ++ post) :
    full.drop (pre.length + 21) = nameMarker name ++ post := by
  rw [drop_toolText hfull, ← length_toolOpening, toolText, List.append_assoc, List.drop_left]

theorem nameMarker_mem (hfull : full = pre ++ toolText name ++ post) (hle : searchFrom ≤ pre.length) :
    pre.length + 21 ∈ occurrences full (nameMarker name) searchFrom := by
  refine mem_occurrences.mpr ⟨?_, by omega, ?_⟩
  · rw [hfull]
    simp only [List.length_append, toolText, length_toolOpening]
    omega
  · rw [drop_nameMarker hfull]
    exact List.prefix_append _ _

/-- Within a tool, the only brace is the first character. -/
theorem not_brace_in_opening {k : ℕ} (hpos : 0 < k) (hlt : k < 21) : toolOpening[k]? ≠ some '\x7b' := by
  have hall : ∀ k < 21, 0 < k → toolOpening[k]? ≠ some '\x7b' := by decide
  exact hall k hlt hpos

/-- Going back from the name of a tool, there is a brace, and the first one is not behind the opening of
the tool. -/
theorem exists_opener (hfull : full = pre ++ toolText name ++ post) (hle : searchFrom ≤ pre.length)
    (hbrace : full[searchFrom]? = some '\x7b') :
    ∃ nm idx, find full (nameMarker name) searchFrom = some nm ∧
      rfind full ['\x7b'] searchFrom nm = some idx ∧ idx ≤ pre.length ∧ full[idx]? = some '\x7b' := by
  obtain ⟨nm, hfind, hnm, hnmle⟩ := exists_find (nameMarker_mem hfull hle)
  obtain ⟨-, hstart, hprefix⟩ := mem_occurrences.mp hnm
  have hquote : full[nm]? = some doubleQuote := by
    obtain ⟨t, ht⟩ := hprefix
    rw [← List.head?_drop, ← ht]
    rfl
  -- the search starts at a brace, and so before the name
  have hlt : searchFrom < nm := by
    refine Nat.lt_of_le_of_ne hstart (fun heq => ?_)
    rw [heq, hquote] at hbrace
    exact absurd (Option.some.inj hbrace) (by decide)
  have hmem : searchFrom ∈ occurrences full ['\x7b'] searchFrom :=
    singleton_mem_occurrences.mpr ⟨Nat.le_refl searchFrom, hbrace⟩
  obtain ⟨idx, hrfind, hidx, hidxlt⟩ := exists_rfind hmem (show searchFrom + 1 ≤ nm from hlt)
  obtain ⟨-, hget⟩ := singleton_mem_occurrences.mp hidx
  refine ⟨nm, idx, hfind, hrfind, ?_, hget⟩
  by_contra hgt
  have hk : idx = pre.length + (idx - pre.length) := by omega
  rw [List.length_singleton] at hidxlt
  have hinside : toolOpening[idx - pre.length]? = some '\x7b' := by
    rw [hk, ← List.head?_drop, drop_toolText hfull, List.head?_drop, toolText, List.append_assoc,
      List.getElem?_append_left (by rw [length_toolOpening]; omega)] at hget
    exact hget
  exact not_brace_in_opening (by omega) (by omega) hinside

end ToolText

/-- The texts of all tools. -/
def toolsText (tools : List Json) : List Char := (tools.filterMap toolName).flatMap toolText

theorem toolsText_cons {tool : Json} {name : List Char} (h : toolName tool = some name)
    (tools : List Json) : toolsText (tool :: tools) = toolText name ++ toolsText tools := by
  rw [toolsText, List.filterMap_cons_some h, List.flatMap_cons]
  rfl

section DeepSeek

variable {full pre post : List Char} {searchFrom : ℕ} {tools : List Json}

theorem Dsv4.exists_locateTools (hnamed : ∀ tool ∈ tools, toolName tool ≠ none)
    (hfull : full = pre ++ toolsText tools ++ post) (hle : searchFrom ≤ pre.length)
    (hbrace : full[searchFrom]? = some '\x7b') :
    ∃ positions, Dsv4.locateTools full searchFrom tools = some positions := by
  induction tools generalizing pre searchFrom with
  | nil => exact ⟨[], rfl⟩
  | cons tool tools ih =>
    obtain ⟨name, hname⟩ := Option.ne_none_iff_exists'.mp (hnamed tool List.mem_cons_self)
    rw [toolsText_cons hname] at hfull
    have hfull' : full = pre ++ toolText name ++ (toolsText tools ++ post) := by
      rw [hfull]
      simp only [List.append_assoc]
    obtain ⟨nm, idx, hfind, hrfind, hidx, hbrace'⟩ := exists_opener hfull' hle hbrace
    have hnext : full = (pre ++ toolText name) ++ toolsText tools ++ post := by
      rw [hfull]
      simp only [List.append_assoc]
    obtain ⟨positions, hpositions⟩ := ih (fun tool h => hnamed tool (List.mem_cons_of_mem _ h)) hnext
      (Nat.le_trans hidx (by rw [List.length_append]; exact Nat.le_add_right _ _)) hbrace'
    refine ⟨idx :: positions, ?_⟩
    simp [Dsv4.locateTools, hname, hfind, hrfind, hpositions]

theorem Dsv4.named_of_locateTools {positions : List ℕ}
    (h : Dsv4.locateTools full searchFrom tools = some positions) :
    ∀ tool ∈ tools, toolName tool ≠ none := by
  induction tools generalizing searchFrom positions with
  | nil =>
    intro tool htool
    cases htool
  | cons tool tools ih =>
    simp only [Dsv4.locateTools, Option.bind_eq_bind, Option.bind_eq_some_iff] at h
    obtain ⟨name, hname, nm, -, idx, -, rest, hrest, -⟩ := h
    intro tool' htool'
    rcases List.mem_cons.mp htool' with rfl | htool'
    · rw [hname]
      exact Option.some_ne_none name
    · exact ih hrest tool' htool'

end DeepSeek

/-! ## Names that are matched -/

section Matched

variable {full pre post name : List Char} {idx k : ℕ} {idxs : List ℕ}

theorem not_quote_of_nameAfter (h : Standard.nameAfter full idx = some name) : doubleQuote ∉ name := by
  simp only [Standard.nameAfter, Option.bind_eq_bind, Option.bind_eq_some_iff] at h
  obtain ⟨-, -, a, -, b, hb, heq⟩ := h
  cases heq
  intro hquote
  obtain ⟨i, hi, hget⟩ := List.getElem_of_mem hquote
  obtain ⟨-, hmin⟩ := find_eq_some_iff.mp hb
  rw [List.length_drop, List.length_take] at hi
  have hat : full[a + 1 + i]? = some doubleQuote := by
    rw [List.getElem_drop, List.getElem_take] at hget
    rw [List.getElem?_eq_getElem (by omega), hget]
  have hle := hmin _ (singleton_mem_occurrences.mpr ⟨by omega, hat⟩)
  omega

theorem nameAfter_of_matchCandidate (h : Standard.matchCandidate full name idxs = some idx) :
    idx ∈ idxs ∧ Standard.nameAfter full idx = some name := by
  induction idxs with
  | nil => cases h
  | cons i idxs ih =>
    simp only [Standard.matchCandidate, Option.bind_eq_bind, Option.bind_eq_some_iff] at h
    obtain ⟨found, hfound, h⟩ := h
    split at h
    · next heq =>
      cases h
      exact ⟨List.mem_cons_self, heq ▸ hfound⟩
    · obtain ⟨hmem, hname⟩ := ih h
      exact ⟨List.mem_cons_of_mem i hmem, hname⟩

/-- The first match is not behind one that is there. -/
theorem exists_matchCandidate (hsorted : idxs.Pairwise (· < ·)) (hk : k ∈ idxs)
    (hname : Standard.nameAfter full k = some name)
    (hsome : ∀ i ≤ k, Standard.nameAfter full i ≠ none) :
    ∃ idx, Standard.matchCandidate full name idxs = some idx ∧ idx ≤ k := by
  induction idxs with
  | nil => cases hk
  | cons i idxs ih =>
    have hle : i ≤ k := by
      rcases List.mem_cons.mp hk with rfl | hk
      · exact Nat.le_refl _
      · exact Nat.le_of_lt ((List.pairwise_cons.mp hsorted).1 k hk)
    obtain ⟨found, hfound⟩ := Option.ne_none_iff_exists'.mp (hsome i hle)
    simp only [Standard.matchCandidate, hfound, Option.bind_eq_bind, Option.bind_some]
    split
    · exact ⟨i, rfl, hle⟩
    · next hne =>
      rcases List.mem_cons.mp hk with rfl | hk
      · rw [hname, Option.some.injEq] at hfound
        exact absurd hfound.symm hne
      · exact ih (List.pairwise_cons.mp hsorted).2 hk

/-- What `nameAfter` looks for. -/
def nameKey : List Char := "\"name\":".toList

theorem nameMarker_eq (name : List Char) :
    nameMarker name = nameKey ++ ([' ', doubleQuote] ++ (name ++ [doubleQuote])) := by
  have hkey : "\"name\": \"".toList = nameKey ++ [' ', doubleQuote] := by decide +kernel
  unfold nameMarker
  simp only [hkey, List.append_assoc]

theorem length_nameKey : nameKey.length = 7 := by decide

theorem getElem?_nameMarker_of_lt (name : List Char) {j : ℕ} (hj : j < 2) :
    (nameMarker name ++ post)[7 + j]? = [' ', doubleQuote][j]? := by
  have hle : nameKey.length ≤ 7 + j := by
    rw [length_nameKey]
    exact Nat.le_add_right 7 j
  rw [nameMarker_eq, List.append_assoc, List.getElem?_append_right hle, length_nameKey,
    Nat.add_sub_cancel_left, List.append_assoc, List.getElem?_append_left (by simpa using hj)]

theorem getElem?_nameMarker_of_le (name : List Char) (j : ℕ) :
    (nameMarker name ++ post)[9 + j]? = (name ++ ([doubleQuote] ++ post))[j]? := by
  have hlen : (nameKey ++ [' ', doubleQuote]).length = 9 := by decide
  have hmarker : nameMarker name ++ post =
      (nameKey ++ [' ', doubleQuote]) ++ (name ++ ([doubleQuote] ++ post)) := by
    rw [nameMarker_eq]
    simp only [List.append_assoc]
  rw [hmarker, ← hlen, List.getElem?_append_right (Nat.le_add_right _ _), Nat.add_sub_cancel_left]

theorem getElem?_nameMarker (hfull : full = pre ++ toolText name ++ post) (j : ℕ) :
    full[pre.length + 21 + j]? = (nameMarker name ++ post)[j]? := by
  rw [← List.getElem?_drop, drop_nameMarker hfull]

theorem opening_quote (hfull : full = pre ++ toolText name ++ post) :
    full[pre.length + 21 + 8]? = some doubleQuote := by
  rw [getElem?_nameMarker hfull]
  exact getElem?_nameMarker_of_lt name Nat.one_lt_two

theorem closing_quote (hfull : full = pre ++ toolText name ++ post) :
    full[pre.length + 21 + (9 + name.length)]? = some doubleQuote := by
  rw [getElem?_nameMarker hfull, getElem?_nameMarker_of_le,
    List.getElem?_append_right (Nat.le_refl _), Nat.sub_self]
  rfl

theorem nameKey_mem {i : ℕ} (hfull : full = pre ++ toolText name ++ post) (hi : i ≤ pre.length) :
    pre.length + 21 ∈ occurrences full nameKey i := by
  obtain ⟨hlen, -, -⟩ := mem_occurrences.mp (nameMarker_mem hfull hi)
  refine mem_occurrences.mpr ⟨hlen, by omega, ?_⟩
  rw [drop_nameMarker hfull]
  rw [nameMarker_eq, List.append_assoc]
  exact List.prefix_append _ _

theorem nameAfter_ne_none {i : ℕ} (hfull : full = pre ++ toolText name ++ post) (hi : i ≤ pre.length) :
    Standard.nameAfter full i ≠ none := by
  obtain ⟨p, hp, -, hple⟩ := exists_find (nameKey_mem hfull hi)
  obtain ⟨a, ha, -, hale⟩ := exists_find (singleton_mem_occurrences.mpr
    ⟨show p + 7 ≤ pre.length + 21 + 8 by omega, opening_quote hfull⟩)
  obtain ⟨b, hb, -, -⟩ := exists_find (singleton_mem_occurrences.mpr
    ⟨show a + 1 ≤ pre.length + 21 + (9 + name.length) by omega, closing_quote hfull⟩)
  have hp' : find full "\"name\":".toList i = some p := hp
  simp only [Standard.nameAfter, hp', ha, hb, Option.bind_eq_bind, Option.bind_some]
  exact Option.some_ne_none _

/-- The key is not found between the brace and the name. -/
theorem find_nameKey (hfull : full = pre ++ toolText name ++ post) :
    find full nameKey pre.length = some (pre.length + 21) := by
  refine find_eq_some_iff.mpr ⟨nameKey_mem hfull (Nat.le_refl _), fun j hj => ?_⟩
  obtain ⟨-, hstart, hprefix⟩ := mem_occurrences.mp hj
  by_contra hlt
  obtain ⟨o, rfl⟩ := Nat.exists_eq_add_of_le hstart
  have ho : o < 21 := by omega
  rw [drop_toolText hfull] at hprefix
  have hkey := List.prefix_iff_eq_take.mp hprefix
  have hfixed : toolText name ++ post =
      (toolOpening ++ nameKey) ++ ([' ', doubleQuote] ++ (name ++ ([doubleQuote] ++ post))) := by
    rw [toolText, nameMarker_eq]
    simp only [List.append_assoc]
  have hall : ∀ o < 21, o + nameKey.length ≤ (toolOpening ++ nameKey).length ∧
      nameKey ≠ ((toolOpening ++ nameKey).drop o).take nameKey.length := by decide
  obtain ⟨hlen, hne⟩ := hall o ho
  rw [hfixed, List.drop_append_of_le_length (by omega), List.take_append_of_le_length (by
    rw [List.length_drop]
    omega)] at hkey
  exact hne hkey

/-- A name without quotes is found at its tool. -/
theorem nameAfter_toolText (hfull : full = pre ++ toolText name ++ post) (hquote : doubleQuote ∉ name) :
    Standard.nameAfter full pre.length = some name := by
  have hkey : find full "\"name\":".toList pre.length = some (pre.length + 21) :=
    find_nameKey hfull
  have hopen : find full [doubleQuote] (pre.length + 21 + 7) =
      some (pre.length + 21 + 8) := by
    refine find_eq_some_iff.mpr ⟨singleton_mem_occurrences.mpr ⟨by omega, opening_quote hfull⟩, ?_⟩
    intro j hj
    obtain ⟨hstart, hget⟩ := singleton_mem_occurrences.mp hj
    by_contra hlt
    obtain rfl : j = pre.length + 21 + 7 := by omega
    rw [getElem?_nameMarker hfull, getElem?_nameMarker_of_lt name Nat.two_pos] at hget
    exact absurd (Option.some.inj hget) (by decide)
  have hclose : find full [doubleQuote] (pre.length + 21 + 8 + 1) =
      some (pre.length + 21 + (9 + name.length)) := by
    refine find_eq_some_iff.mpr ⟨singleton_mem_occurrences.mpr ⟨by omega, closing_quote hfull⟩, ?_⟩
    intro j hj
    obtain ⟨hstart, hget⟩ := singleton_mem_occurrences.mp hj
    by_contra hlt
    -- it would be a character of the name
    obtain ⟨o, rfl⟩ := Nat.exists_eq_add_of_le hstart
    have ho : o < name.length := by omega
    rw [show pre.length + 21 + 8 + 1 + o = pre.length + 21 + (9 + o) by omega,
      getElem?_nameMarker hfull, getElem?_nameMarker_of_le, List.getElem?_append_left ho] at hget
    exact hquote (List.mem_of_getElem? hget)
  have hname : (full.take (pre.length + 21 + (9 + name.length))).drop (pre.length + 21 + 8 + 1) =
      name := by
    refine List.ext_getElem? fun i => ?_
    rw [List.getElem?_drop, List.getElem?_take,
      show pre.length + 21 + 8 + 1 + i = pre.length + 21 + (9 + i) by omega,
      getElem?_nameMarker hfull, getElem?_nameMarker_of_le]
    by_cases hi : i < name.length
    · rw [if_pos (by omega), List.getElem?_append_left hi]
    · rw [if_neg (by omega), List.getElem?_eq_none (by omega)]
  simp only [Standard.nameAfter, hkey, hopen, hclose, Option.bind_eq_bind, Option.bind_some, hname]

end Matched

namespace Standard

section Locate

variable {tok : Tokenizer} {messages tools : List Json} {full pre post name : List Char} {searchFrom : ℕ}

theorem pairwise_occurrences (s pat : List Char) (start : ℕ) :
    (occurrences s pat start).Pairwise (· < ·) := List.pairwise_lt_range.filter _

/-- A tool is located at its text or before, at a brace. -/
theorem exists_locateTool (hfull : full = pre ++ toolText name ++ post) (hle : searchFrom ≤ pre.length)
    (hbrace : full[searchFrom]? = some '\x7b') :
    ∃ idx, locateTool full name searchFrom = some idx ∧ idx ≤ pre.length ∧ full[idx]? = some '\x7b' := by
  unfold locateTool
  simp only
  cases hmatch : matchCandidate full name (occurrences full "\x7b\"type\": \"function\"".toList searchFrom)
    with
  | none =>
    obtain ⟨nm, idx, hfind, hrfind, hidx, hget⟩ := exists_opener hfull hle hbrace
    exact ⟨idx, by simp [hfind, hrfind], hidx, hget⟩
  | some idx =>
    obtain ⟨hmem, hname⟩ := nameAfter_of_matchCandidate hmatch
    refine ⟨idx, rfl, ?_, ?_⟩
    · have hk : pre.length ∈ occurrences full "\x7b\"type\": \"function\"".toList searchFrom := by
        obtain ⟨hlen, -, -⟩ := mem_occurrences.mp (nameMarker_mem hfull hle)
        refine mem_occurrences.mpr ⟨by omega, hle, ?_⟩
        have hdrop := drop_toolText hfull 0
        rw [Nat.add_zero, List.drop_zero] at hdrop
        have hopening : toolOpening = "\x7b\"type\": \"function\"".toList ++ [',', ' '] := by decide +kernel
        rw [hdrop, toolText, hopening, List.append_assoc, List.append_assoc]
        exact List.prefix_append _ _
      obtain ⟨idx', hmatch', hidx'⟩ := exists_matchCandidate (pairwise_occurrences _ _ _) hk
        (nameAfter_toolText hfull (not_quote_of_nameAfter hname))
        (fun i hi => nameAfter_ne_none hfull hi)
      rw [hmatch, Option.some.injEq] at hmatch'
      exact hmatch' ▸ hidx'
    · obtain ⟨-, -, t, ht⟩ := mem_occurrences.mp hmem
      rw [← List.head?_drop, ← ht]
      rfl

/-- If the text of all tools is rendered for each of them too, they are located. -/
theorem exists_locateTools (hnamed : ∀ tool ∈ tools, toolName tool ≠ none)
    (halone : ∀ tool, tok.renderForTable messages (some [tool]) false = .ok (.text (String.ofList full)))
    (hfull : full = pre ++ toolsText tools ++ post) (hle : searchFrom ≤ pre.length)
    (hbrace : full[searchFrom]? = some '\x7b') :
    ∃ positions, locateTools tok messages full searchFrom tools = some positions := by
  induction tools generalizing pre searchFrom with
  | nil => exact ⟨[], rfl⟩
  | cons tool tools ih =>
    obtain ⟨name, hname⟩ := Option.ne_none_iff_exists'.mp (hnamed tool List.mem_cons_self)
    rw [toolsText_cons hname] at hfull
    have hfull' : full = pre ++ toolText name ++ (toolsText tools ++ post) := by
      rw [hfull]
      simp only [List.append_assoc]
    obtain ⟨idx, hlocate, hidx, hbrace'⟩ := exists_locateTool hfull' hle hbrace
    obtain ⟨nm, hnm, -⟩ := exists_find (nameMarker_mem hfull' (Nat.zero_le _))
    have hnext : full = (pre ++ toolText name) ++ toolsText tools ++ post := by
      rw [hfull]
      simp only [List.append_assoc]
    obtain ⟨positions, hpositions⟩ := ih (fun tool h => hnamed tool (List.mem_cons_of_mem _ h)) hnext
      (Nat.le_trans hidx (by rw [List.length_append]; exact Nat.le_add_right _ _)) hbrace'
    refine ⟨idx :: positions, ?_⟩
    simp [locateTools, halone, hname, hnm, hlocate, hpositions]

theorem named_of_locateTools {positions : List ℕ}
    (h : locateTools tok messages full searchFrom tools = some positions) :
    ∀ tool ∈ tools, toolName tool ≠ none := by
  induction tools generalizing searchFrom positions with
  | nil =>
    intro tool htool
    cases htool
  | cons tool tools ih =>
    rw [locateTools] at h
    split at h
    · simp only [Option.bind_eq_bind, Option.bind_eq_some_iff] at h
      obtain ⟨name, hname, alone, -, idx, -, rest, hrest, -⟩ := h
      intro tool' htool'
      rcases List.mem_cons.mp htool' with rfl | htool'
      · rw [hname]
        exact Option.some_ne_none name
      · exact ih hrest tool' htool'
    · cases h

end Locate

end Standard

end PyMotor.Coordinator
