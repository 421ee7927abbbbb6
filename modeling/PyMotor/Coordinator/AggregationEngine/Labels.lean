import PyMotor.Coordinator.AggregationEngine

/-!
# The labels of a histogram

The lines of a histogram as an engine writes them. The buckets of a label set differ in the value of
`le`, which stands anywhere among the labels, and the lines of the number and of the sum of the values
have the other labels only. The code finds the bound again by looking for `le="`, and takes the labels
without it as a key. It finds the right one if no label before it has a name that ends in `le` and no
value ends in `le=` (`searchLe_bucketText`), and then the keys of the lines are the labels
(`groupKey_bucketText`, `groupKey_suffixText`).
-/

namespace PyMotor.Coordinator.SemanticAggregationEngine

/-- The name of a label, and its value. -/
abbrev Label := List Char × List Char

/-- The labels of a histogram, before `le` and after it, and the finite bounds as they are written. -/
structure LabelSet where
  before : List Label
  after : List Label
  bounds : List (List Char × ℚ)
  deriving DecidableEq

def LabelSet.labels (set : LabelSet) : List Label := set.before ++ set.after

/-! ## Lines -/

def item (l : Label) : List Char := l.1 ++ '=' :: dquote :: l.2 ++ [dquote]

/-- Labels, with what stands before the first one. -/
def lead : Char → List Label → List Char
  | _, [] => []
  | c, l :: ls => c :: item l ++ lead ',' ls

def braces : List Label → List Char
  | [] => []
  | ls => lead '\x7b' ls ++ ['\x7d']

def leName : List Char := ['l', 'e']

def leOpen : List Char := ['l', 'e', '=']

def bucketText (name : String) (set : LabelSet) (bound : List Char) : List Char :=
  name.toList ++ "_bucket".toList ++ braces (set.before ++ (leName, bound) :: set.after)

/-- The line of the number of the values, or of their sum. -/
def suffixText (name suffix : String) (set : LabelSet) : List Char :=
  name.toList ++ suffix.toList ++ braces set.labels

theorem lead_append (c : Char) (ls ls' : List Label) :
    lead c (ls ++ ls') = lead c ls ++ lead (if ls = [] then c else ',') ls' := by
  induction ls generalizing c with
  | nil => rfl
  | cons l ls ih =>
    rw [List.cons_append, lead, lead, ih, List.append_assoc, if_neg (List.cons_ne_nil l ls)]
    by_cases h : ls = [] <;> simp [h]

theorem braces_of_ne_nil {ls : List Label} (h : ls ≠ []) : braces ls = lead '\x7b' ls ++ ['\x7d'] := by
  cases ls with
  | nil => exact absurd rfl h
  | cons l ls => rfl

/-! ## What is expected of the text -/

/-- No quote and no brace. -/
def Plain (s : List Char) : Prop := dquote ∉ s ∧ '\x7b' ∉ s ∧ '\x7d' ∉ s

instance (s : List Char) : Decidable (Plain s) := inferInstanceAs (Decidable (_ ∧ _ ∧ _))

variable (table : CharTable)

/-- A label that is not the bound: the name is a word, and the value has no quote and no brace. -/
structure LabelWritten (l : Label) : Prop where
  name_ne_nil : l.1 ≠ []
  name_ne_le : l.1 ≠ leName
  word : ∀ c ∈ l.1, table.isWord c = true
  plain : Plain l.2

/-- The bounds are numbers, in order, and they are read as what they are. -/
structure LabelSet.Written (set : LabelSet) : Prop where
  labels : ∀ l ∈ set.labels, LabelWritten table l
  plain : ∀ b ∈ set.bounds, Plain b.1
  float : ∀ b ∈ set.bounds, pyFloat table b.1 = some (b.2 : WithTop ℚ)
  sorted : set.bounds.Pairwise fun b b' => b.2 < b'.2

/-- The text does not look like the bound anywhere before it, and no value looks like it. -/
structure LabelSet.Readable (set : LabelSet) : Prop where
  names : ∀ l ∈ set.before, ¬leName <:+ l.1
  values : ∀ l ∈ set.labels, ¬leOpen <:+ l.2

variable {table} {s t p : List Char} {l : Label} {ls : List Label} {set : LabelSet} {name suffix : String}

/-! ### Characters -/

theorem isWord_of_ascii {c : Char} {b : Bool} (hlt : c.toNat < 128) (h : (c.isAlphanum || c == '_') = b) :
    table.isWord c = b :=
  (table.isWord_ascii c hlt).trans h

theorem isWord_dquote : table.isWord dquote = false := isWord_of_ascii (by decide) (by decide)

theorem isWord_open : table.isWord '\x7b' = false := isWord_of_ascii (by decide) (by decide)

theorem isWord_close : table.isWord '\x7d' = false := isWord_of_ascii (by decide) (by decide)

theorem isWord_comma : table.isWord ',' = false := isWord_of_ascii (by decide) (by decide)

theorem isWord_equals : table.isWord '=' = false := isWord_of_ascii (by decide) (by decide)

namespace LabelWritten

theorem notMem_name {c : Char} (h : LabelWritten table l) (hc : table.isWord c = false) : c ∉ l.1 := by
  intro hmem
  rw [h.word c hmem] at hc
  cases hc

theorem dquote_notMem (h : LabelWritten table l) : dquote ∉ l.1 := h.notMem_name isWord_dquote

theorem exists_head (h : LabelWritten table l) : ∃ c n, l.1 = c :: n ∧ table.isWord c = true := by
  cases hn : l.1 with
  | nil => exact absurd hn h.name_ne_nil
  | cons c n => exact ⟨c, n, rfl, h.word c (hn ▸ List.mem_cons_self)⟩

end LabelWritten

/-! ## The bound is found -/

theorem closeQuote_append (hp : dquote ∉ p) (s : List Char) :
    closeQuote (p ++ dquote :: s) = some (p, s) := by
  induction p with
  | nil => rfl
  | cons c p ih =>
    rw [List.cons_append, closeQuote, if_neg (List.ne_of_not_mem_cons hp).symm,
      ih (List.not_mem_of_not_mem_cons hp)]
    rfl

theorem quotedLe_leOpen (hp : dquote ∉ p) (s : List Char) :
    quotedLe (leOpen ++ dquote :: p ++ dquote :: s) = some (p, s) := by
  show closeQuote (p ++ dquote :: s) = _
  exact closeQuote_append hp s

theorem quotedLe_isSome (h : (quotedLe s).isSome = true) : ∃ rest, s = leOpen ++ dquote :: rest := by
  unfold quotedLe at h
  split at h
  · next rest => exact ⟨rest, rfl⟩
  · cases h

theorem quotedLe_eq_none (hp : dquote ∉ p) (h : p ≠ leOpen) : quotedLe (p ++ dquote :: s) = none := by
  by_contra hne
  obtain ⟨rest, heq⟩ := quotedLe_isSome (Option.isSome_iff_ne_none.mpr hne)
  exact h (append_cons_inj hp (by decide) heq).1

theorem searchLe_cons {c : Char} (h : quotedLe (c :: s) = none) : searchLe (c :: s) = searchLe s := by
  rw [searchLe, h]

theorem searchLe_of_some {c : Char} {r : List Char × List Char} (h : quotedLe (c :: s) = some r) :
    searchLe (c :: s) = some r.1 := by
  rw [searchLe, h]

theorem searchLe_skip (hp : dquote ∉ p) (h : ¬leOpen <:+ p) :
    searchLe (p ++ dquote :: s) = searchLe s := by
  induction p with
  | nil => exact searchLe_cons (quotedLe_eq_none (p := []) hp (by decide))
  | cons c p ih =>
    have hne : c :: p ≠ leOpen := by
      rintro heq
      exact h (heq ▸ List.suffix_refl _)
    have hnone : quotedLe (c :: (p ++ dquote :: s)) = none := quotedLe_eq_none hp hne
    rw [List.cons_append, searchLe_cons hnone]
    exact ih (List.not_mem_of_not_mem_cons hp) fun hs => h (hs.trans (List.suffix_cons c p))

theorem searchLe_hit (hp : dquote ∉ p) (ht : dquote ∉ t) :
    searchLe (p ++ leOpen ++ dquote :: t ++ dquote :: s) = some t := by
  induction p with
  | nil =>
    have hle := quotedLe_leOpen ht s
    show searchLe ('l' :: ('e' :: '=' :: dquote :: t ++ dquote :: s)) = _
    exact searchLe_of_some hle
  | cons c p ih =>
    have hc : dquote ∉ c :: p ++ leOpen := by
      rw [List.mem_append, not_or]
      exact ⟨hp, by decide⟩
    have hne : c :: p ++ leOpen ≠ leOpen := by
      intro heq
      have hlen := congrArg List.length heq
      rw [List.cons_append, List.length_cons, List.length_append] at hlen
      omega
    have hnone : quotedLe (c :: p ++ leOpen ++ dquote :: (t ++ dquote :: s)) = none :=
      quotedLe_eq_none hc hne
    have ih := ih (List.not_mem_of_not_mem_cons hp)
    simp only [List.append_assoc, List.cons_append] at hnone ih ⊢
    rw [searchLe_cons hnone, ih]

theorem searchLe_eq_none (hp : dquote ∉ p) : searchLe p = none := by
  induction p with
  | nil => rfl
  | cons c p ih =>
    have hnone : quotedLe (c :: p) = none := by
      by_contra hne
      obtain ⟨rest, heq⟩ := quotedLe_isSome (Option.isSome_iff_ne_none.mpr hne)
      rw [heq] at hp
      exact hp (by simp)
    rw [searchLe_cons hnone, ih (List.not_mem_of_not_mem_cons hp)]

/-! ### From label to label -/

/-- What stands before a label: the opening brace, or a comma. -/
def Leads (c : Char) : Prop := c = '\x7b' ∨ c = ','

theorem Leads.notMem_leOpen {c : Char} (h : Leads c) : c ∉ leOpen := by
  rcases h with rfl | rfl <;> decide

theorem not_leOpen_suffix {c : Char} (hc : Leads c) (h : ¬leName <:+ l.1) :
    ¬leOpen <:+ p ++ c :: (l.1 ++ ['=']) := by
  intro hs
  obtain ⟨a, ha⟩ := suffix_of_append_cons hc.notMem_leOpen hs
  have hname : a ++ leName ++ ['='] = l.1 ++ ['='] := by
    rw [List.append_assoc]
    exact ha
  exact h ⟨a, List.append_cancel_right hname⟩

/-- A label is two steps of the search, up to the quote before its value and to the one behind it. -/
theorem searchLe_item {c : Char} (hc : Leads c) (hl : LabelWritten table l) (hp : dquote ∉ p)
    (hname : ¬leName <:+ l.1) (hvalue : ¬leOpen <:+ l.2) :
    searchLe (p ++ c :: item l ++ s) = searchLe s := by
  have hquote : dquote ∉ p ++ c :: (l.1 ++ ['=']) := by
    have hne : dquote ≠ c := by rcases hc with rfl | rfl <;> decide
    simp [hp, hne, hl.dquote_notMem]
    decide
  have hsplit : p ++ c :: item l ++ s = (p ++ c :: (l.1 ++ ['='])) ++ dquote :: (l.2 ++ dquote :: s) := by
    simp [item]
  rw [hsplit, searchLe_skip hquote (not_leOpen_suffix hc hname), searchLe_skip hl.plain.1 hvalue]

theorem searchLe_lead {c : Char} (hc : Leads c) (hls : ∀ l ∈ ls, LabelWritten table l)
    (hnames : ∀ l ∈ ls, ¬leName <:+ l.1) (hvalues : ∀ l ∈ ls, ¬leOpen <:+ l.2) (hp : dquote ∉ p) :
    searchLe (p ++ lead c ls ++ s) = if ls = [] then searchLe (p ++ s) else searchLe s := by
  induction ls generalizing c p with
  | nil => simp [lead]
  | cons l ls ih =>
    rw [List.forall_mem_cons] at hls hnames hvalues
    have hstep : searchLe (p ++ lead c (l :: ls) ++ s) = searchLe ([] ++ lead ',' ls ++ s) := by
      have hassoc : p ++ lead c (l :: ls) ++ s = p ++ c :: item l ++ (lead ',' ls ++ s) := by
        simp [lead]
      rw [hassoc]
      exact searchLe_item hc hls.1 hp hnames.1 hvalues.1
    rw [hstep, ih (Or.inr rfl) hls.2 hnames.2 hvalues.2 (by simp), if_neg (List.cons_ne_nil l ls)]
    split <;> rfl

/-- What stands before `le`. -/
def leadOfLe (set : LabelSet) : Char := if set.before = [] then '\x7b' else ','

theorem leads_leadOfLe (set : LabelSet) : Leads (leadOfLe set) := by
  unfold leadOfLe
  split
  · exact Or.inl rfl
  · exact Or.inr rfl

theorem LabelSet.Written.before (h : set.Written table) : ∀ l ∈ set.before, LabelWritten table l :=
  fun l hl => h.labels l (List.mem_append_left _ hl)

theorem LabelSet.Written.after (h : set.Written table) : ∀ l ∈ set.after, LabelWritten table l :=
  fun l hl => h.labels l (List.mem_append_right _ hl)

theorem braces_bucket (set : LabelSet) (bound : List Char) :
    braces (set.before ++ (leName, bound) :: set.after) =
      lead '\x7b' set.before ++ (leadOfLe set :: item (leName, bound) ++ (lead ',' set.after ++ ['\x7d'])) := by
  rw [braces_of_ne_nil (by simp), lead_append, lead]
  unfold leadOfLe
  simp

theorem dquote_notMem_start (hname : Plain name.toList) (hsuffix : dquote ∉ suffix.toList) :
    dquote ∉ name.toList ++ suffix.toList := by
  rw [List.mem_append, not_or]
  exact ⟨hname.1, hsuffix⟩

/-- **The bound is found** where it is. -/
theorem searchLe_bucketText (hname : Plain name.toList) (h : set.Written table) (hr : set.Readable)
    (ht : dquote ∉ t) : searchLe (bucketText name set t) = some t := by
  have hp : dquote ∉ name.toList ++ "_bucket".toList := dquote_notMem_start hname (by decide)
  have hvalues : ∀ l ∈ set.before, ¬leOpen <:+ l.2 := fun l hl =>
    hr.values l (List.mem_append_left _ hl)
  have hc : dquote ≠ leadOfLe set := by
    rcases leads_leadOfLe set with h | h <;> rw [h] <;> decide
  unfold bucketText
  rw [braces_bucket, ← List.append_assoc, searchLe_lead (Or.inl rfl) h.before hr.names hvalues hp]
  split
  · have hhit : searchLe ((name.toList ++ "_bucket".toList ++ [leadOfLe set]) ++ leOpen ++ dquote :: t ++
        dquote :: (lead ',' set.after ++ ['\x7d'])) = some t :=
      searchLe_hit (by rw [List.mem_append, not_or]; exact ⟨hp, by simpa using hc⟩) ht
    simpa [item, leOpen, leName] using hhit
  · have hhit : searchLe ([leadOfLe set] ++ leOpen ++ dquote :: t ++
        dquote :: (lead ',' set.after ++ ['\x7d'])) = some t := searchLe_hit (by simpa using hc) ht
    simpa [item, leOpen, leName] using hhit

theorem searchLe_suffixText (hname : Plain name.toList) (h : set.Written table) (hr : set.Readable)
    (hsuffix : dquote ∉ suffix.toList) (hnames : ∀ l ∈ set.labels, ¬leName <:+ l.1) :
    searchLe (suffixText name suffix set) = none := by
  have hp := dquote_notMem_start hname hsuffix
  unfold suffixText
  by_cases hls : set.labels = []
  · rw [hls]
    show searchLe (name.toList ++ suffix.toList ++ []) = none
    rw [List.append_nil]
    exact searchLe_eq_none hp
  · rw [braces_of_ne_nil hls, ← List.append_assoc,
      searchLe_lead (Or.inl rfl) h.labels hnames hr.values hp, if_neg hls]
    rfl

/-! ## The labels without the bound -/

/-- Up to the next quote, nothing is deleted unless it is `le=` at the beginning of a word. -/
theorem subFrom_leLabel_skip {prev : Option Char} (hp : dquote ∉ p)
    (h : ∀ a, p = a ++ leOpen → (Pattern.after prev a).any table.isWord = true) :
    (leLabel table).subFrom [] prev 0 (p ++ dquote :: s) =
      p ++ dquote :: (leLabel table).subFrom [] (some dquote) 0 s := by
  have hpass : ∀ a c b, p ++ [dquote] = a ++ c :: b →
      leLabel table (Pattern.after prev a) (c :: b ++ s) = none := by
    intro a c b heq
    unfold leLabel
    rcases List.eq_nil_or_concat b with rfl | ⟨b', d, rfl⟩
    · -- the quote
      obtain ⟨rfl, hc⟩ := List.append_inj' heq rfl
      obtain rfl := (List.cons.inj hc).1
      have hnone : quotedLe ([dquote] ++ s) = none := quotedLe_eq_none (p := []) (by simp) (by decide)
      rw [hnone]
      split <;> rfl
    · have hassoc : p ++ [dquote] = (a ++ c :: b') ++ [d] := by simpa using heq
      obtain ⟨hpre, hd⟩ := List.append_inj' hassoc rfl
      obtain rfl := (List.cons.inj hd).1
      have hquote : dquote ∉ c :: b' := fun hmem => hp (hpre ▸ List.mem_append_right _ hmem)
      by_cases hle : c :: b' = leOpen
      · rw [if_pos (h a (hle ▸ hpre))]
      · have hnone : quotedLe (c :: (b' ++ [dquote]) ++ s) = none := by
          have := quotedLe_eq_none (s := s) hquote hle
          simpa using this
        rw [List.concat_eq_append, hnone]
        split <;> rfl
  have happend : (leLabel table).subFrom [] prev 0 (p ++ [dquote] ++ s) =
      p ++ [dquote] ++ (leLabel table).subFrom [] (Pattern.after prev (p ++ [dquote])) 0 s :=
    Pattern.subFrom_append hpass
  rw [Pattern.after_concat] at happend
  simpa using happend

theorem quotedLe_cons_ne {c : Char} (hc : c ≠ 'l') : quotedLe (c :: s) = none := by
  by_contra hne
  obtain ⟨rest, heq⟩ := quotedLe_isSome (Option.isSome_iff_ne_none.mpr hne)
  exact hc (List.cons.inj heq).1

theorem subFrom_leLabel_cons {prev : Option Char} {c : Char} (hc : c ≠ 'l') :
    (leLabel table).subFrom [] prev 0 (c :: s) = c :: (leLabel table).subFrom [] (some c) 0 s := by
  have hnone : leLabel table prev (c :: s) = none := by
    unfold leLabel
    rw [quotedLe_cons_ne hc]
    split <;> rfl
  rw [Pattern.subFrom, hnone]

theorem subFrom_leLabel_item {prev : Option Char} (hl : LabelWritten table l) (hvalue : ¬leOpen <:+ l.2) :
    (leLabel table).subFrom [] prev 0 (item l ++ s) =
      item l ++ (leLabel table).subFrom [] (some dquote) 0 s := by
  have hquote : dquote ∉ l.1 ++ ['='] := by
    rw [List.mem_append, not_or]
    exact ⟨hl.dquote_notMem, by decide⟩
  -- a name that ends in `le` has another character before
  have hword : ∀ a, l.1 ++ ['='] = a ++ leOpen → (Pattern.after prev a).any table.isWord = true := by
    intro a heq
    have hname : l.1 = a ++ leName := by
      have hassoc : l.1 ++ ['='] = a ++ leName ++ ['='] := by
        rw [heq, List.append_assoc]
        rfl
      exact List.append_cancel_right hassoc
    rcases List.eq_nil_or_concat a with rfl | ⟨a, c, rfl⟩
    · exact absurd hname hl.name_ne_le
    · rw [List.concat_eq_append] at hname ⊢
      rw [Pattern.after_concat]
      exact hl.word c (hname ▸ by simp)
  have hskip : ∀ a, l.2 = a ++ leOpen → (Pattern.after (some dquote) a).any table.isWord = true :=
    fun a heq => absurd ⟨a, heq.symm⟩ hvalue
  have hsplit : item l ++ s = (l.1 ++ ['=']) ++ dquote :: (l.2 ++ dquote :: s) := by
    simp [item]
  rw [hsplit, subFrom_leLabel_skip hquote hword, subFrom_leLabel_skip hl.plain.1 hskip]
  simp [item]

theorem Leads.ne_l {c : Char} (h : Leads c) : c ≠ 'l' := by
  rcases h with rfl | rfl <;> decide

theorem subFrom_leLabel_lead {c : Char} {prev : Option Char} (hc : Leads c)
    (hls : ∀ l ∈ ls, LabelWritten table l) (hvalues : ∀ l ∈ ls, ¬leOpen <:+ l.2) :
    (leLabel table).subFrom [] prev 0 (lead c ls ++ s) =
      lead c ls ++ (leLabel table).subFrom [] (if ls = [] then prev else some dquote) 0 s := by
  induction ls generalizing c prev with
  | nil => rfl
  | cons l ls ih =>
    rw [List.forall_mem_cons] at hls hvalues
    have hassoc : lead c (l :: ls) ++ s = c :: (item l ++ (lead ',' ls ++ s)) := by
      simp [lead]
    rw [hassoc, subFrom_leLabel_cons hc.ne_l, subFrom_leLabel_item hls.1 hvalues.1,
      ih (Or.inr rfl) hls.2 hvalues.2, if_neg (List.cons_ne_nil l ls)]
    have hif : (if ls = [] then some dquote else some dquote) = some dquote := ite_self _
    rw [hif]
    simp [lead]

theorem Leads.isWord_eq {c : Char} (h : Leads c) : table.isWord c = false := by
  rcases h with rfl | rfl
  · exact isWord_open
  · exact isWord_comma

theorem dropComma_eq_self (h : s.head? ≠ some ',') : dropComma s = s := by
  unfold dropComma
  split
  · exact absurd rfl h
  · rfl

theorem leLabel_bound {c : Char} (hc : Leads c) (ht : dquote ∉ t) {comma rest : List Char}
    (hcomma : comma = [] ∧ rest.head? ≠ some ',' ∨ comma = [','])
    (hspace : ∀ d, rest.head? = some d → isSpace d = false) :
    leLabel table (some c) (item (leName, t) ++ comma ++ rest) =
      some (item (leName, t) ++ comma).length := by
  have hquoted : quotedLe (item (leName, t) ++ comma ++ rest) = some (t, comma ++ rest) := by
    have h := quotedLe_leOpen ht (comma ++ rest)
    simpa [item, leOpen, leName] using h
  have hdrop : rest.dropWhile isSpace = rest := by
    cases rest with
    | nil => rfl
    | cons d rest => rw [List.dropWhile_cons_of_neg (by rw [hspace d rfl]; exact Bool.false_ne_true)]
  have hcut : dropComma (comma ++ rest) = rest := by
    rcases hcomma with ⟨rfl, hne⟩ | rfl
    · exact dropComma_eq_self hne
    · rfl
  unfold leLabel
  rw [Option.any_some, hc.isWord_eq, if_neg Bool.false_ne_true, hquoted, Option.map_some]
  show some (_ - ((dropComma (comma ++ rest)).dropWhile isSpace).length) = _
  rw [hcut, hdrop, List.length_append, Nat.add_sub_cancel]

theorem subFrom_leLabel_bound {c : Char} (hc : Leads c) (ht : dquote ∉ t) {comma rest : List Char}
    (hcomma : comma = [] ∧ rest.head? ≠ some ',' ∨ comma = [','])
    (hspace : ∀ d, rest.head? = some d → isSpace d = false) :
    ∃ prev, (leLabel table).subFrom [] (some c) 0 (item (leName, t) ++ comma ++ rest) =
      (leLabel table).subFrom [] prev 0 rest := by
  have hne : item (leName, t) ++ comma ≠ [] := by simp [item, leName]
  exact ⟨_, Pattern.subFrom_match hne (leLabel_bound hc ht hcomma hspace)⟩

/-- What follows `le` and the comma behind it. -/
def remaining : List Label → List Char
  | [] => ['\x7d']
  | l :: ls => item l ++ lead ',' ls ++ ['\x7d']

theorem subFrom_leLabel_remaining {prev : Option Char} (hls : ∀ l ∈ ls, LabelWritten table l)
    (hvalues : ∀ l ∈ ls, ¬leOpen <:+ l.2) :
    (leLabel table).subFrom [] prev 0 (remaining ls) = remaining ls := by
  cases ls with
  | nil => exact subFrom_leLabel_cons (by decide)
  | cons l ls =>
    rw [List.forall_mem_cons] at hls hvalues
    rw [remaining, List.append_assoc, subFrom_leLabel_item hls.1 hvalues.1,
      subFrom_leLabel_lead (Or.inr rfl) hls.2 hvalues.2, subFrom_leLabel_cons (by decide)]
    rfl

theorem sub_leLabel_bucket (h : set.Written table) (hr : set.Readable) (ht : dquote ∉ t) :
    (leLabel table).sub [] (braces (set.before ++ (leName, t) :: set.after)) =
      lead '\x7b' set.before ++ leadOfLe set :: remaining set.after := by
  have hc := leads_leadOfLe set
  have hbefore : ∀ l ∈ set.before, ¬leOpen <:+ l.2 := fun l hl =>
    hr.values l (List.mem_append_left _ hl)
  have hafter : ∀ l ∈ set.after, ¬leOpen <:+ l.2 := fun l hl =>
    hr.values l (List.mem_append_right _ hl)
  unfold Pattern.sub
  rw [braces_bucket, subFrom_leLabel_lead (Or.inl rfl) h.before hbefore, List.cons_append,
    subFrom_leLabel_cons hc.ne_l]
  congr 2
  cases hls : set.after with
  | nil =>
    obtain ⟨prev, hsub⟩ : ∃ prev, (leLabel table).subFrom [] (some (leadOfLe set)) 0
        (item (leName, t) ++ [] ++ ['\x7d']) = (leLabel table).subFrom [] prev 0 ['\x7d'] :=
      subFrom_leLabel_bound hc ht (Or.inl ⟨rfl, by decide⟩) (by simp [isSpace])
    rw [List.append_nil] at hsub
    exact hsub.trans (subFrom_leLabel_cons (by decide))
  | cons l ls =>
    rw [hls] at hafter
    have hwritten : ∀ l' ∈ l :: ls, LabelWritten table l' := hls ▸ h.after
    obtain ⟨d, n, hname, hword⟩ := (hwritten l List.mem_cons_self).exists_head
    obtain ⟨prev, hsub⟩ : ∃ prev, (leLabel table).subFrom [] (some (leadOfLe set)) 0
        (item (leName, t) ++ [','] ++ remaining (l :: ls)) =
          (leLabel table).subFrom [] prev 0 (remaining (l :: ls)) := by
      refine subFrom_leLabel_bound hc ht (Or.inr rfl) ?_
      -- the name of the next label does not begin with a space
      intro d' hd'
      simp only [remaining, item, hname, List.cons_append, List.head?_cons, Option.some.injEq] at hd'
      exact hd' ▸ table.isSpace_of_isWord d hword
    have hassoc : item (leName, t) ++ (lead ',' (l :: ls) ++ ['\x7d']) =
        item (leName, t) ++ [','] ++ remaining (l :: ls) := by simp [lead, remaining]
    rw [hassoc, hsub]
    exact subFrom_leLabel_remaining hwritten hafter

/-! ### What is tidied up -/

theorem Leads.isSpace_eq {c : Char} (h : Leads c) : isSpace c = false := by
  rcases h with rfl | rfl <;> decide

theorem lead_eq_concat (c : Char) (h : ls ≠ []) : ∃ m, lead c ls = m ++ [dquote] := by
  induction ls generalizing c with
  | nil => exact absurd rfl h
  | cons l ls ih =>
    by_cases hls : ls = []
    · exact ⟨c :: (l.1 ++ '=' :: dquote :: l.2), by simp [lead, item, hls]⟩
    · obtain ⟨m, hm⟩ := ih ',' hls
      exact ⟨c :: item l ++ m, by rw [lead, hm, List.append_assoc]⟩

theorem notMem_item {c : Char} (hl : LabelWritten table l) (hword : table.isWord c = false)
    (hvalue : c ∉ l.2) (hequals : c ≠ '=') (hquote : c ≠ dquote) : c ∉ item l := by
  simp [item, hl.notMem_name hword, hvalue, hequals, hquote]

theorem close_notMem_lead {c : Char} (hc : Leads c) (hls : ∀ l ∈ ls, LabelWritten table l) :
    '\x7d' ∉ lead c ls := by
  induction ls generalizing c with
  | nil => exact List.not_mem_nil
  | cons l ls ih =>
    rw [List.forall_mem_cons] at hls
    have hne : '\x7d' ≠ c := by rcases hc with rfl | rfl <;> decide
    rw [lead, List.mem_append, List.mem_cons, not_or, not_or]
    exact ⟨⟨hne, notMem_item hls.1 isWord_close hls.1.plain.2.2 (by decide) (by decide)⟩,
      ih (Or.inr rfl) hls.2⟩

theorem open_notMem_lead (hls : ∀ l ∈ ls, LabelWritten table l) : '\x7b' ∉ lead ',' ls := by
  induction ls with
  | nil => exact List.not_mem_nil
  | cons l ls ih =>
    rw [List.forall_mem_cons] at hls
    rw [lead, List.mem_append, List.mem_cons, not_or, not_or]
    exact ⟨⟨by decide, notMem_item hls.1 isWord_open hls.1.plain.2.1 (by decide) (by decide)⟩, ih hls.2⟩

/-- A brace is opened once, and what follows it is the name of a label. -/
theorem lead_open (h : ls ≠ []) (hls : ∀ l ∈ ls, LabelWritten table l) :
    ∃ d n, lead '\x7b' ls = '\x7b' :: d :: n ∧ table.isWord d = true ∧ '\x7b' ∉ d :: n := by
  cases ls with
  | nil => exact absurd rfl h
  | cons l ls =>
    rw [List.forall_mem_cons] at hls
    obtain ⟨d, n, hname, hword⟩ := hls.1.exists_head
    have hitem := notMem_item hls.1 isWord_open hls.1.plain.2.1 (by decide) (by decide)
    have hopen := open_notMem_lead hls.2
    have hcons : item l = d :: (n ++ '=' :: dquote :: l.2 ++ [dquote]) := by
      rw [item, hname, List.cons_append, List.cons_append]
    refine ⟨d, n ++ '=' :: dquote :: l.2 ++ [dquote] ++ lead ',' ls, ?_, hword, ?_⟩
    · rw [lead, hcons]
      rfl
    · rw [← List.cons_append, ← hcons, List.mem_append, not_or]
      exact ⟨hitem, hopen⟩

/-- A pattern that begins with a brace does not match a text whose brace is followed by a name. -/
theorem sub_of_open {m : Pattern} {repl n : List Char} {d : Char} (hn : '\x7b' ∉ d :: n)
    (hm : ∀ prev c s, c ≠ '\x7b' → m prev (c :: s) = none)
    (hopen : ∀ prev, m prev ('\x7b' :: d :: n) = none) :
    m.sub repl ('\x7b' :: d :: n) = '\x7b' :: d :: n := by
  apply Pattern.sub_eq_self
  intro a c b heq
  cases a with
  | nil =>
    obtain ⟨rfl, rfl⟩ := List.cons.inj heq
    exact hopen none
  | cons a' a =>
    obtain ⟨rfl, htail⟩ := List.cons.inj heq
    apply hm
    rintro rfl
    exact hn (htail ▸ by simp)

theorem spaced_cons_ne {a b c : Char} {prev : Option Char} (h : c ≠ a) :
    spaced a b prev (c :: s) = none :=
  if_neg h

theorem spaced_of_notMem {a b : Char} {prev : Option Char} {p : List Char} {d : Char} (hb : b ∉ p ++ [d])
    (hd : isSpace d = false) : spaced a b prev (a :: (p ++ d :: s)) = none := by
  have hdrop : ∃ x r, (p ++ d :: s).dropWhile isSpace = x :: r ∧ x ∈ p ++ [d] := by
    clear hb
    induction p with
    | nil =>
      have hneg : ¬isSpace d = true := by
        rw [hd]
        exact Bool.false_ne_true
      exact ⟨d, s, List.dropWhile_cons_of_neg hneg, by simp⟩
    | cons e p ih =>
      by_cases he : isSpace e = true
      · obtain ⟨x, r, hx, hmem⟩ := ih
        refine ⟨x, r, ?_, List.mem_cons_of_mem e hmem⟩
        rw [List.cons_append, List.dropWhile_cons_of_pos he, hx]
      · exact ⟨e, p ++ d :: s, List.dropWhile_cons_of_neg he, by simp⟩
  obtain ⟨x, r, hx, hmem⟩ := hdrop
  have hne : x ≠ b := by
    rintro rfl
    exact hb hmem
  unfold spaced
  simp only [if_true, hx, if_neg hne]

/-- The last steps of the key. -/
def tidy (rest : List Char) : List Char :=
  (literal ['\x7b', ',']).sub ['\x7b']
    ((spaced ',' '\x7d').sub ['\x7d'] ((spaced '\x7b' '\x7d').sub [] (strip rest)))

theorem strip_eq_self {c d : Char} {m : List Char} (hc : isSpace c = false) (hd : isSpace d = false)
    (h : s = c :: m) (h' : s = p ++ [d]) : strip s = s := by
  have hfront : s.dropWhile isSpace = s := by
    rw [h, List.dropWhile_cons_of_neg (by rw [hc]; exact Bool.false_ne_true)]
  have hback : s.reverse.dropWhile isSpace = s.reverse := by
    rw [h', List.reverse_concat, List.dropWhile_cons_of_neg (by rw [hd]; exact Bool.false_ne_true)]
  rw [strip, hfront, hback, List.reverse_reverse]

theorem sub_spaced_comma {c : Char} (hc : Leads c) (h : ls ≠ []) (hls : ∀ l ∈ ls, LabelWritten table l)
    {u : List Char} (hu : u = ['\x7d'] ∨ u = [',', '\x7d']) :
    (spaced ',' '\x7d').sub ['\x7d'] (lead c ls ++ u) = lead c ls ++ ['\x7d'] := by
  have hclose := close_notMem_lead hc hls
  obtain ⟨m, hm⟩ := lead_eq_concat c h
  have hpass : ∀ a x b, lead c ls = a ++ x :: b →
      spaced ',' '\x7d' (Pattern.after none a) (x :: b ++ u) = none := by
    intro a x b heq
    by_cases hx : x = ','
    · subst hx
      -- a quote stands between the comma and the brace
      rcases List.eq_nil_or_concat b with rfl | ⟨b', d, rfl⟩
      · rw [hm] at heq
        obtain ⟨-, hlast⟩ := List.append_inj' heq rfl
        cases (List.cons.inj hlast).1
      · rw [List.concat_eq_append] at heq ⊢
        have hassoc : m ++ [dquote] = (a ++ ',' :: b') ++ [d] := by rw [← hm, heq]; simp
        obtain rfl := (List.cons.inj (List.append_inj' hassoc rfl).2).1
        have hb : '\x7d' ∉ b' ++ [dquote] := by
          intro hmem
          rw [heq] at hclose
          exact hclose (List.mem_append_right a (List.mem_cons_of_mem _ hmem))
        have hnone : spaced ',' '\x7d' (Pattern.after none a) (',' :: (b' ++ dquote :: u)) = none :=
          spaced_of_notMem hb (by decide)
        simpa using hnone
    · exact spaced_cons_ne hx
  unfold Pattern.sub
  rw [Pattern.subFrom_append hpass]
  rcases hu with rfl | rfl
  · rfl
  · rfl

theorem tidy_lead (h : ls ≠ []) (hls : ∀ l ∈ ls, LabelWritten table l) {u : List Char}
    (hu : u = ['\x7d'] ∨ u = [',', '\x7d']) :
    tidy (lead '\x7b' ls ++ u) = lead '\x7b' ls ++ ['\x7d'] := by
  obtain ⟨d, n, hlead, hword, hopen⟩ := lead_open h hls
  have hspace := table.isSpace_of_isWord d hword
  have hend : ∃ v, u = v ++ ['\x7d'] := by
    rcases hu with rfl | rfl
    · exact ⟨[], rfl⟩
    · exact ⟨[','], rfl⟩
  obtain ⟨v, rfl⟩ := hend
  have hclosed : ∀ w, '\x7b' ∉ w → '\x7b' ∉ d :: (n ++ w) := by
    intro w hw hmem
    rcases List.mem_append.mp ((List.cons_append (a := d)).symm ▸ hmem) with hmem | hmem
    · exact hopen hmem
    · exact hw hmem
  have hstrip : strip (lead '\x7b' ls ++ (v ++ ['\x7d'])) = lead '\x7b' ls ++ (v ++ ['\x7d']) :=
    strip_eq_self (d := '\x7d') (Leads.isSpace_eq (Or.inl rfl)) (by decide) (by rw [hlead]; rfl)
      (List.append_assoc _ _ _).symm
  have hbraces : (spaced '\x7b' '\x7d').sub [] (lead '\x7b' ls ++ (v ++ ['\x7d'])) =
      lead '\x7b' ls ++ (v ++ ['\x7d']) := by
    have hv : '\x7b' ∉ v ++ ['\x7d'] := by
      rcases hu with hu | hu <;> rw [hu] <;> decide
    rw [hlead]
    refine sub_of_open (hclosed _ hv) (fun _ _ _ => spaced_cons_ne) fun prev => ?_
    have hne : d ≠ '\x7d' := by
      rintro rfl
      rw [isWord_close] at hword
      cases hword
    unfold spaced
    have hdrop : (d :: (n ++ (v ++ ['\x7d']))).dropWhile isSpace = d :: (n ++ (v ++ ['\x7d'])) :=
      List.dropWhile_cons_of_neg (by rw [hspace]; exact Bool.false_ne_true)
    simp only [if_true, List.append_eq, hdrop, if_neg hne]
  have hliteral : (literal ['\x7b', ',']).sub ['\x7b'] (lead '\x7b' ls ++ ['\x7d']) =
      lead '\x7b' ls ++ ['\x7d'] := by
    rw [hlead]
    refine sub_of_open (hclosed _ (by decide)) (fun _ c s hc => ?_) fun prev => ?_
    · unfold literal
      simp [List.isPrefixOf, Ne.symm hc]
    · have hne : ',' ≠ d := by
        rintro rfl
        rw [isWord_comma] at hword
        cases hword
      unfold literal
      simp [List.isPrefixOf, hne]
  rw [tidy, hstrip, hbraces, sub_spaced_comma (Or.inl rfl) h hls hu, hliteral]

/-! ### The key -/

/-- What follows the name, without the suffix. -/
def withoutSuffix (rest : List Char) : List Char :=
  match ["_bucket".toList, "_count".toList, "_sum".toList].find? fun suffix => suffix.isPrefixOf rest with
  | some suffix => rest.drop suffix.length
  | none => rest

theorem withoutSuffix_append {suffix : String} (h : suffix ∈ ["_bucket", "_count", "_sum"]) (rest : List Char) :
    withoutSuffix (suffix.toList ++ rest) = rest := by
  simp only [List.mem_cons, List.not_mem_nil, or_false] at h
  rcases h with rfl | rfl | rfl <;> simp [withoutSuffix, List.find?, List.isPrefixOf]

theorem groupKey_eq (rest : List Char) (suffix : String) (h : suffix ∈ ["_bucket", "_count", "_sum"]) :
    histogramLabelGroupKey table (name.toList ++ suffix.toList ++ rest) name.toList =
      tidy ((leLabel table).sub [] rest) := by
  have hdrop : (name.toList ++ suffix.toList ++ rest).drop name.toList.length = suffix.toList ++ rest := by
    rw [List.append_assoc, List.drop_left]
  show tidy ((leLabel table).sub [] (withoutSuffix ((name.toList ++ suffix.toList ++ rest).drop _))) = _
  rw [hdrop, withoutSuffix_append h]

theorem tidy_braces (hls : ∀ l ∈ ls, LabelWritten table l) : tidy (braces ls) = braces ls := by
  by_cases h : ls = []
  · subst h
    rfl
  · rw [braces_of_ne_nil h]
    exact tidy_lead h hls (Or.inl rfl)

/-- **The key of a bucket** is what the labels are without the bound. -/
theorem groupKey_bucketText (h : set.Written table) (hr : set.Readable) (ht : dquote ∉ t) :
    histogramLabelGroupKey table (bucketText name set t) name.toList = braces set.labels := by
  unfold bucketText
  rw [groupKey_eq _ "_bucket" (by simp), sub_leLabel_bucket h hr ht]
  unfold leadOfLe LabelSet.labels
  cases hafter : set.after with
  | nil =>
    rw [List.append_nil]
    by_cases hbefore : set.before = []
    · rw [if_pos hbefore, hbefore]
      decide
    · rw [if_neg hbefore, braces_of_ne_nil hbefore]
      exact tidy_lead hbefore h.before (Or.inr rfl)
  | cons l ls =>
    have hlabels : ∀ l' ∈ set.before ++ l :: ls, LabelWritten table l' := by
      rw [← hafter]
      exact h.labels
    have hbraces : lead '\x7b' set.before ++ (if set.before = [] then '\x7b' else ',') ::
        remaining (l :: ls) = braces (set.before ++ l :: ls) := by
      rw [braces_of_ne_nil (by simp), lead_append, lead, remaining]
      simp
    rw [hbraces]
    exact tidy_braces hlabels

theorem groupKey_suffixText (h : set.Written table) (hr : set.Readable)
    (hsuffix : suffix ∈ ["_bucket", "_count", "_sum"]) :
    histogramLabelGroupKey table (suffixText name suffix set) name.toList = braces set.labels := by
  unfold suffixText
  rw [groupKey_eq _ suffix hsuffix]
  have hsub : (leLabel table).sub [] (braces set.labels) = braces set.labels := by
    by_cases hls : set.labels = []
    · rw [hls]
      rfl
    · unfold Pattern.sub
      rw [braces_of_ne_nil hls, subFrom_leLabel_lead (Or.inl rfl) h.labels hr.values,
        subFrom_leLabel_cons (by decide)]
      rfl
  rw [hsub]
  exact tidy_braces h.labels

/-! ### Different labels have different keys -/

theorem item_append_inj {l' : Label} (hl : LabelWritten table l) (hl' : LabelWritten table l')
    (h : item l ++ s = item l' ++ t) : l = l' ∧ s = t := by
  have hsplit : ∀ (l : Label) (s : List Char), item l ++ s = l.1 ++ '=' :: (dquote :: (l.2 ++ dquote :: s)) := by
    simp [item]
  rw [hsplit, hsplit] at h
  obtain ⟨hname, hrest⟩ :=
    append_cons_inj (hl.notMem_name isWord_equals) (hl'.notMem_name isWord_equals) h
  obtain ⟨hvalue, hs⟩ := append_cons_inj hl.plain.1 hl'.plain.1 (List.cons.inj hrest).2
  exact ⟨Prod.ext hname hvalue, hs⟩

theorem lead_close_inj {c : Char} {ls' : List Label} (hls : ∀ l ∈ ls, LabelWritten table l)
    (hls' : ∀ l ∈ ls', LabelWritten table l) (hc : c ≠ '\x7d')
    (h : lead c ls ++ ['\x7d'] = lead c ls' ++ ['\x7d']) : ls = ls' := by
  induction ls generalizing c ls' with
  | nil =>
    cases ls' with
    | nil => rfl
    | cons l' ls' => exact absurd (List.cons.inj h).1.symm hc
  | cons l ls ih =>
    cases ls' with
    | nil => exact absurd (List.cons.inj h).1 hc
    | cons l' ls' =>
      rw [List.forall_mem_cons] at hls hls'
      have htail : item l ++ (lead ',' ls ++ ['\x7d']) = item l' ++ (lead ',' ls' ++ ['\x7d']) := by
        simpa [lead] using (List.cons.inj h).2
      obtain ⟨rfl, hrest⟩ := item_append_inj hls.1 hls'.1 htail
      rw [ih hls.2 hls'.2 (by decide) hrest]

theorem braces_inj {ls' : List Label} (hls : ∀ l ∈ ls, LabelWritten table l)
    (hls' : ∀ l ∈ ls', LabelWritten table l) (h : braces ls = braces ls') : ls = ls' := by
  by_cases hne : ls = []
  · by_cases hne' : ls' = []
    · rw [hne, hne']
    · rw [hne, braces_of_ne_nil hne'] at h
      exact absurd (congrArg List.length h) (by simp [braces])
  · by_cases hne' : ls' = []
    · rw [hne', braces_of_ne_nil hne] at h
      exact absurd (congrArg List.length h) (by simp [braces])
    · rw [braces_of_ne_nil hne, braces_of_ne_nil hne'] at h
      exact lead_close_inj hls hls' (by decide) h

/-! ### What else is found in a label -/

/-- No character that separates the names and values of labels. -/
def Unseparated (pat : List Char) : Prop := ∀ c ∈ ['\x7b', '\x7d', '=', dquote, ','], c ∉ pat

instance (pat : List Char) : Decidable (Unseparated pat) := List.decidableBAll (· ∉ pat) _

theorem infix_lead {pat : List Char} {c : Char} (hne : pat ≠ []) (hpat : Unseparated pat) (hc : Leads c)
    (h : pat <:+: p ++ (lead c ls ++ ['\x7d'])) :
    pat <:+: p ∨ ∃ l ∈ ls, pat <:+: l.1 ∨ pat <:+: l.2 := by
  have hnil : ¬pat <:+: [] := fun h => hne (List.infix_nil.mp h)
  induction ls generalizing c p with
  | nil => exact Or.inl ((infix_of_append_cons (hpat _ (by simp)) h).resolve_right hnil)
  | cons l ls ih =>
    have hcpat : c ∉ pat := by rcases hc with rfl | rfl <;> exact hpat _ (by simp)
    have hsplit : p ++ (lead c (l :: ls) ++ ['\x7d']) =
        p ++ c :: (l.1 ++ '=' :: ([] ++ dquote :: (l.2 ++ dquote :: (lead ',' ls ++ ['\x7d'])))) := by
      simp [lead, item]
    rw [hsplit] at h
    rcases infix_of_append_cons hcpat h with h | h
    · exact Or.inl h
    · rcases infix_of_append_cons (hpat _ (by simp)) h with h | h
      · exact Or.inr ⟨l, List.mem_cons_self, Or.inl h⟩
      · have h := (infix_of_append_cons (hpat _ (by simp)) h).resolve_left hnil
        rcases infix_of_append_cons (hpat _ (by simp)) h with h | h
        · exact Or.inr ⟨l, List.mem_cons_self, Or.inr h⟩
        · rcases ih (p := []) (Or.inr rfl) h with h | ⟨l', hl', h⟩
          · exact absurd h hnil
          · exact Or.inr ⟨l', List.mem_cons_of_mem l hl', h⟩

theorem infix_lead_of_mem (c : Char) (hl : l ∈ ls) : item l <:+: lead c ls := by
  induction ls generalizing c with
  | nil => cases hl
  | cons l' ls ih =>
    rcases List.mem_cons.mp hl with rfl | hl
    · exact ⟨[c], lead ',' ls, by simp [lead]⟩
    · exact (ih ',' hl).trans (List.suffix_append _ _).isInfix

theorem infix_bucketText_of_mem (name : String) (t : List Char) (hl : l ∈ set.labels) :
    item l <:+: bucketText name set t := by
  have hmem : l ∈ set.before ++ (leName, t) :: set.after := by
    rcases List.mem_append.mp hl with hl | hl
    · exact List.mem_append_left _ hl
    · exact List.mem_append_right _ (List.mem_cons_of_mem _ hl)
  unfold bucketText
  rw [braces_of_ne_nil (List.ne_nil_of_mem hmem)]
  exact (infix_lead_of_mem _ hmem).trans ((List.prefix_append _ _).isInfix.trans
    (List.suffix_append _ _).isInfix)

theorem infix_item (l : Label) : l.1 <:+: item l ∧ l.2 <:+: item l :=
  ⟨⟨[], '=' :: dquote :: l.2 ++ [dquote], by simp [item]⟩, ⟨l.1 ++ ['=', dquote], [dquote], by simp [item]⟩⟩

def sumMark : List Char := ['_', 's', 'u', 'm']

/-- The suffix of a count has no part of the one of a sum. -/
theorem sumMark_infix_count (h : sumMark <:+: p ++ "_count".toList) : sumMark <:+: p := by
  have hcount : p ++ "_count".toList = p ++ ['_'] ++ ['c'] ++ ['o'] ++ ['u'] ++ ['n'] ++ ['t'] := by simp
  have hmark : sumMark = ['_', 's', 'u'] ++ ['m'] := rfl
  rw [hcount, hmark] at h
  rw [hmark]
  exact infix_of_concat (by decide) (infix_of_concat (by decide) (infix_of_concat (by decide)
    (infix_of_concat (by decide) (infix_of_concat (by decide) (infix_of_concat (by decide) h)))))

/-- A count that looks like a sum has buckets that look like sums. -/
theorem sumMark_bucketText (h : sumMark <:+: suffixText name "_count" set) (t : List Char) :
    sumMark <:+: bucketText name set t := by
  have hname : sumMark <:+: name.toList → sumMark <:+: bucketText name set t := fun h =>
    h.trans ((List.prefix_append _ _).trans (List.prefix_append _ _)).isInfix
  unfold suffixText at h
  by_cases hls : set.labels = []
  · rw [hls] at h
    exact hname (sumMark_infix_count (by simpa [braces] using h))
  · rw [braces_of_ne_nil hls] at h
    rcases infix_lead (by decide) (by decide) (Or.inl rfl) h with h | ⟨l, hl, h⟩
    · exact hname (sumMark_infix_count h)
    · have hin := infix_bucketText_of_mem name t hl
      rcases h with h | h
      · exact h.trans ((infix_item l).1.trans hin)
      · exact h.trans ((infix_item l).2.trans hin)

end PyMotor.Coordinator.SemanticAggregationEngine
