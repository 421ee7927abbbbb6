import PyMotor.Lib.Dict
import PyMotor.Lib.PrefixRange

/-!
# The ETCD client

The data of `EtcdClient` (`common/etcd/etcd_client.py`) lies under keys that begin with the namespace and the
name of the job. ETCD compares keys byte by byte. The client asks for all keys with a common beginning, and
deletes them, as the range of bytes from the beginning itself up to the beginning with its last byte
increased. These are the keys that begin so and no others (`get?_deletePrefix`), because no byte of UTF-8 is the
last there is.

Keys are the texts that the clients have written; ETCD sees their bytes. Leases, time limits and the client's
own lock are left out.
-/

namespace PyMotor.Common

/-- Where a client belongs (`POD_NAMESPACE` and `JOB_NAME`). Names of Kubernetes objects have no slash in them. -/
structure EtcdScope where
  podNamespace : String
  jobName : String
  noSlash : '/' ∉ podNamespace.toList ∧ '/' ∉ jobName.toList
  deriving DecidableEq

/-- What all keys of the deployment begin with. -/
def EtcdScope.root (d : EtcdScope) : String := d.podNamespace ++ "/" ++ d.jobName ++ "/"

/-- `str.encode("utf-8")` -/
def utf8 (s : String) : List ℕ := (s.toList.flatMap String.utf8EncodeChar).map UInt8.toNat

namespace EtcdKv

/-- Whether a key begins so, as `str.startswith` has it. -/
def StartsWith (key start : String) : Prop := start.toList <+: key.toList

instance (key start : String) : Decidable (StartsWith key start) :=
  inferInstanceAs (Decidable (start.toList <+: key.toList))

/-- A key that has the namespace and the name of the job already stays as it is. -/
def getKeyWithNamespaceAndJobName (d : EtcdScope) (key : String) : String :=
  if StartsWith key d.root then key else d.podNamespace ++ "/" ++ d.jobName ++ key

/-- The first byte that can be increased, is. -/
def increaseFirst : List ℕ → List ℕ
  | [] => []
  | b :: bs => if b < 0xFF then (b + 1) :: bs else b :: increaseFirst bs

/-- The search for a byte to increase starts at the end. -/
def prefixRangeEnd (start : String) : List ℕ := (increaseFirst (utf8 start).reverse).reverse

/-! ## What ETCD does -/

/-- What ETCD holds. -/
abbrev Kvs := Dict String String

def InRange (key rangeEnd : List ℕ) (k : String) : Prop := ¬utf8 k < key ∧ utf8 k < rangeEnd

instance (key rangeEnd : List ℕ) (k : String) : Decidable (InRange key rangeEnd k) :=
  inferInstanceAs (Decidable (¬utf8 k < key ∧ utf8 k < rangeEnd))

def range (kvs : Kvs) (key rangeEnd : List ℕ) : List (String × String) :=
  (kvs.filter fun k _ => decide (InRange key rangeEnd k)).entries

def deleteRange (kvs : Kvs) (key rangeEnd : List ℕ) : Kvs :=
  kvs.filter fun k _ => !decide (InRange key rangeEnd k)

/-! ## What the client asks for -/

/-- The data is text by now. -/
def putJson (d : EtcdScope) (kvs : Kvs) (key json : String) : Kvs :=
  kvs.insert (getKeyWithNamespaceAndJobName d key) json

def deletePrefix (d : EtcdScope) (kvs : Kvs) (start : String) : Kvs :=
  let start := getKeyWithNamespaceAndJobName d start
  deleteRange kvs (utf8 start) (prefixRangeEnd start)

variable {J : Type}

/-- What follows the prefix and a slash, and the data. -/
def relativeItem (loads : String → Option J) (start : String) (kv : String × String) : Option (String × J) :=
  (loads kv.2).map fun item => (String.ofList (kv.1.toList.drop (start.length + 1)), item)

/-- Data that cannot be read makes the whole answer empty. -/
def getPrefixData (loads : String → Option J) (d : EtcdScope) (kvs : Kvs) (keyPrefix : String) : Dict String J :=
  let start := getKeyWithNamespaceAndJobName d keyPrefix
  match (range kvs (utf8 start) (prefixRangeEnd start)).mapM (relativeItem loads start) with
  | none => ∅
  | some items => items.foldl (fun data item => data.insert item.1 item.2) ∅

/-- Nothing found is no data. -/
def restoreData (loads : String → Option J) (d : EtcdScope) (kvs : Kvs) (keyPrefix : String) :
    Option (Dict String J) :=
  let data := getPrefixData loads d kvs keyPrefix
  if data.isEmpty then none else some data

/-! ## Bytes of texts -/

theorem utf8_append (s t : String) : utf8 (s ++ t) = utf8 s ++ utf8 t := by
  simp [utf8]

theorem utf8_isPrefix_iff {s t : String} : utf8 s <+: utf8 t ↔ s.toList <+: t.toList := by
  constructor
  · rintro ⟨rest, h⟩
    obtain ⟨bytes, hrest⟩ : ∃ bytes : List UInt8, bytes.map UInt8.toNat = rest := by
      refine ⟨(t.toList.flatMap String.utf8EncodeChar).drop (s.toList.flatMap String.utf8EncodeChar).length, ?_⟩
      rw [List.map_drop]
      change List.drop _ (utf8 t) = rest
      rw [← h, List.drop_append_of_le_length (by simp [utf8])]
      simp [utf8]
    subst hrest
    rw [utf8, utf8, ← List.map_append] at h
    have hbytes := List.map_injective_iff.mpr (fun _ _ => UInt8.toNat_inj.mp) h
    refine List.isPrefix_of_utf8Encode_append_eq_utf8Encode bytes.toByteArray ?_
    rw [List.utf8Encode, List.utf8Encode, ← hbytes, List.toByteArray_append]
  · rintro ⟨rest, h⟩
    refine ⟨utf8 (String.ofList rest), ?_⟩
    rw [← utf8_append]
    congr 1
    rw [← String.toList_inj, String.toList_append, String.toList_ofList, h]

/-- A character ends in a byte that can be increased. -/
theorem utf8EncodeChar_last (c : Char) :
    ∃ bs b, (String.utf8EncodeChar c).map UInt8.toNat = bs ++ [b] ∧ b < 0xFF := by
  simp only [String.utf8EncodeChar]
  split
  · refine ⟨[], _, rfl, ?_⟩
    simp only [UInt8.toNat_ofNat']
    omega
  split
  · refine ⟨[_], _, rfl, ?_⟩
    simp only [UInt8.toNat_ofNat']
    omega
  split
  · refine ⟨[_, _], _, rfl, ?_⟩
    simp only [UInt8.toNat_ofNat']
    omega
  · refine ⟨[_, _, _], _, rfl, ?_⟩
    simp only [UInt8.toNat_ofNat']
    omega

theorem utf8_last {s : String} (hs : s ≠ "") : ∃ bs b, utf8 s = bs ++ [b] ∧ b < 0xFF := by
  have hne : s.toList ≠ [] := by simpa using hs
  obtain ⟨bs, b, hb, hlt⟩ := utf8EncodeChar_last (s.toList.getLast hne)
  refine ⟨utf8 (String.ofList s.toList.dropLast) ++ bs, b, ?_, hlt⟩
  conv_lhs => rw [utf8, ← List.dropLast_concat_getLast hne]
  rw [List.flatMap_append, List.map_append, List.flatMap_singleton, hb, List.append_assoc, utf8,
    String.toList_ofList]

/-! ## Ranges -/

theorem prefixRangeEnd_eq {start : String} {bs : List ℕ} {b : ℕ} (h : utf8 start = bs ++ [b]) (hb : b < 0xFF) :
    prefixRangeEnd start = bs ++ [b + 1] := by
  simp [prefixRangeEnd, h, increaseFirst, hb]

/-- **A range is a prefix.** -/
theorem inRange_iff {start : String} (hs : start ≠ "") (k : String) :
    InRange (utf8 start) (prefixRangeEnd start) k ↔ StartsWith k start := by
  obtain ⟨bs, b, h, hb⟩ := utf8_last hs
  have hnext : b ⋖ b + 1 := ⟨Nat.lt_succ_self b, fun _ hlow hhigh => absurd hlow (by omega)⟩
  rw [InRange, prefixRangeEnd_eq h hb, h, mem_range_iff_isPrefix hnext, ← h]
  exact utf8_isPrefix_iff

theorem getKey_ne_empty (d : EtcdScope) (key : String) : getKeyWithNamespaceAndJobName d key ≠ "" := by
  intro h
  have hslash : '/' ∈ (getKeyWithNamespaceAndJobName d key).toList := by
    rw [getKeyWithNamespaceAndJobName]
    split
    · next hkey =>
      refine hkey.subset ?_
      simp [EtcdScope.root]
    · simp
  rw [h] at hslash
  cases hslash

/-- **A prefix is deleted**, and nothing but what lies under it. -/
theorem get?_deletePrefix (d : EtcdScope) (kvs : Kvs) (start k : String) :
    (deletePrefix d kvs start).get? k =
      if StartsWith k (getKeyWithNamespaceAndJobName d start) then none else kvs.get? k := by
  rw [deletePrefix, deleteRange, Dict.get?_filter]
  simp only [decide_eq_decide.mpr (inRange_iff (getKey_ne_empty d start) k)]
  by_cases hk : StartsWith k (getKeyWithNamespaceAndJobName d start)
  · simp [hk]
  · cases kvs.get? k <;> simp [hk]

theorem mem_range_iff (d : EtcdScope) (kvs : Kvs) (start k json : String) :
    (k, json) ∈ range kvs (utf8 (getKeyWithNamespaceAndJobName d start))
        (prefixRangeEnd (getKeyWithNamespaceAndJobName d start)) ↔
      StartsWith k (getKeyWithNamespaceAndJobName d start) ∧ kvs.get? k = some json := by
  rw [range, Dict.mem_entries_iff, Dict.get?_filter]
  simp only [decide_eq_decide.mpr (inRange_iff (getKey_ne_empty d start) k)]
  by_cases hk : StartsWith k (getKeyWithNamespaceAndJobName d start)
  · simp [hk]
  · simp [hk]

end EtcdKv

end PyMotor.Common
