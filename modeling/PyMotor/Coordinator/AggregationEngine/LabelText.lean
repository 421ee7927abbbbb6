import Mathlib.Algebra.Order.Field.Rat
import PyMotor.Coordinator.InstanceCache
import PyMotor.Lib.Scan

/-!
# Labels as text

A sample of a histogram is told by its label, which is one text: the name of the metric with a suffix,
and the names and values of the labels in braces. The bound of a bucket is the value of the label `le`.
This is how `coordinator/metrics/aggregation_engine.py` reads the text.

A `CharTable` is what Python knows of characters beyond ASCII.
-/

namespace PyMotor.Coordinator

theorem isSpace_of_ascii_word (c : Char) (h : (c.isAlphanum || c == '_') = true) : isSpace c = false := by
  have hrange : (48 ≤ c.toNat ∧ c.toNat ≤ 57) ∨ (65 ≤ c.toNat ∧ c.toNat ≤ 90) ∨ c.toNat = 95 ∨
      (97 ≤ c.toNat ∧ c.toNat ≤ 122) := by
    delta Char.isAlphanum Char.isAlpha Char.isUpper Char.isLower Char.isDigit at h
    simp only [Bool.or_eq_true, Bool.and_eq_true, decide_eq_true_eq, beq_iff_eq, ge_iff_le,
      UInt32.le_iff_toNat_le] at h
    rcases h with ((h | h) | h) | h
    · exact Or.inr (Or.inl h)
    · exact Or.inr (Or.inr (Or.inr h))
    · exact Or.inl h
    · subst h
      exact Or.inr (Or.inr (Or.inl rfl))
  have hnot : c.toNat ∉ [9, 10, 11, 12, 13, 28, 29, 30, 31, 32, 0x85, 0xa0, 0x1680, 0x2028, 0x2029,
      0x202f, 0x205f, 0x3000] ∧ ¬(0x2000 ≤ c.toNat ∧ c.toNat ≤ 0x200a) := by
    simp only [List.mem_cons, List.not_mem_nil, or_false]
    omega
  rw [isSpace, decide_eq_false hnot.1, decide_eq_false hnot.2]
  rfl

/-- Which characters are part of words for a regular expression, and which are decimal digits. -/
structure CharTable where
  isWord : Char → Bool
  digit : Char → Option ℕ
  isWord_ascii : ∀ c, c.toNat < 128 → isWord c = (c.isAlphanum || c == '_')
  digit_ascii : ∀ c, c.toNat < 128 →
    digit c = if c.isDigit then some (c.toNat - '0'.toNat) else none
  /-- No space is part of a word. -/
  isSpace_of_isWord : ∀ c, isWord c = true → isSpace c = false

def CharTable.ascii : CharTable where
  isWord c := c.isAlphanum || c == '_'
  digit c := if c.isDigit then some (c.toNat - '0'.toNat) else none
  isWord_ascii _ _ := rfl
  digit_ascii _ _ := rfl
  isSpace_of_isWord := isSpace_of_ascii_word

namespace SemanticAggregationEngine

/-! ## Numbers -/

variable (table : CharTable)

/-- Digits, with single underscores between them. -/
def digitPart : List Char → Option (List ℕ)
  | [] => none
  | [c] => (table.digit c).map fun d => [d]
  | c :: '_' :: s => (table.digit c).bind fun d => (digitPart s).map fun ds => d :: ds
  | c :: s => (table.digit c).bind fun d => (digitPart s).map fun ds => d :: ds

def natOfDigits (ds : List ℕ) : ℕ := ds.foldl (fun n d => 10 * n + d) 0

/-- What stands before the exponent: digits on at least one side of the point. -/
def mantissa (s : List Char) : Option ℚ :=
  let whole := s.takeWhile (· ≠ '.')
  let fraction := (s.dropWhile (· ≠ '.')).drop 1
  if whole = [] then (digitPart table fraction).map fun ds => natOfDigits ds / 10 ^ ds.length
  else (digitPart table whole).bind fun ws =>
    if fraction = [] then some (natOfDigits ws)
    else (digitPart table fraction).map fun ds => natOfDigits ws + natOfDigits ds / 10 ^ ds.length

def exponent : List Char → Option ℤ
  | '-' :: s => (digitPart table s).map fun ds => -(natOfDigits ds : ℤ)
  | '+' :: s => (digitPart table s).map fun ds => natOfDigits ds
  | s => (digitPart table s).map fun ds => natOfDigits ds

def decimal (s : List Char) : Option ℚ :=
  let isExp : Char → Bool := fun c => c == 'e' || c == 'E'
  let m := s.takeWhile fun c => !isExp c
  match s.dropWhile fun c => !isExp c with
  | [] => mantissa table m
  | _ :: e => (mantissa table m).bind fun q => (exponent table e).map fun k => q * 10 ^ k

def unsigned (s : List Char) : Option (WithTop ℚ) :=
  let lower := s.map Char.toLower
  if lower = "inf".toList ∨ lower = "infinity".toList then some ⊤
  else (decimal table s).map fun q => (q : WithTop ℚ)

def strip (s : List Char) : List Char :=
  ((s.dropWhile isSpace).reverse.dropWhile isSpace).reverse

/-- `float(s)`, where nothing is `ValueError`. The bounds of a histogram are neither `nan` nor `-inf`,
and these two count as errors here. -/
def pyFloat (s : List Char) : Option (WithTop ℚ) :=
  match strip s with
  | '-' :: s => (unsigned table s).bind fun v => v.recTopCoe none fun q => some ((-q : ℚ) : WithTop ℚ)
  | '+' :: s => unsigned table s
  | s => unsigned table s

/-! ## The bound of a bucket -/

def dquote : Char := '\x22'

/-- Up to the next quote, and what follows it. -/
def closeQuote : List Char → Option (List Char × List Char)
  | [] => none
  | c :: s => if c = dquote then some ([], s) else (closeQuote s).map fun r => (c :: r.1, r.2)

/-- `le="([^"]*)"`, from the beginning of a text. -/
def quotedLe : List Char → Option (List Char × List Char)
  | 'l' :: 'e' :: '=' :: '\x22' :: s => closeQuote s
  | _ => none

/-- `_BUCKET_LE_RE.search` -/
def searchLe : List Char → Option (List Char)
  | [] => none
  | c :: s =>
    match quotedLe (c :: s) with
    | some r => some r.1
    | none => searchLe s

/-- The bound as it is written, as a number. -/
def upperBound (s : List Char) : Option (WithTop ℚ) :=
  if s = "+Inf".toList then some ⊤ else pyFloat table s

/-! ## The labels without the bound -/

/-- `,?` -/
def dropComma : List Char → List Char
  | ',' :: s => s
  | s => s

/-- `\ble="[^"]*",?\s*` -/
def leLabel : Pattern := fun prev s =>
  if prev.any table.isWord then none
  else (quotedLe s).map fun r => s.length - ((dropComma r.2).dropWhile isSpace).length

/-- Two characters, with only space between them. -/
def spaced (a b : Char) : Pattern := fun _ s =>
  match s with
  | [] => none
  | c :: s =>
    if c = a then
      match s.dropWhile isSpace with
      | [] => none
      | c' :: rest => if c' = b then some (s.length + 1 - rest.length) else none
    else none

/-- A text as it is. -/
def literal (t : List Char) : Pattern := fun _ s => if t.isPrefixOf s then some t.length else none

/-- `_histogram_label_group_key` -/
def histogramLabelGroupKey (label metricName : List Char) : List Char :=
  let rest := label.drop metricName.length
  let rest :=
    match ["_bucket".toList, "_count".toList, "_sum".toList].find? fun suffix => suffix.isPrefixOf rest with
    | some suffix => rest.drop suffix.length
    | none => rest
  let rest := (leLabel table).sub [] rest
  let rest := (spaced '\x7b' '\x7d').sub [] (strip rest)
  let rest := (spaced ',' '\x7d').sub ['\x7d'] rest
  (literal ['\x7b', ',']).sub ['\x7b'] rest

end SemanticAggregationEngine

end PyMotor.Coordinator
