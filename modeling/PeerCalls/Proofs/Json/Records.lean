import PeerCalls.Json.Compact
import PeerCalls.Json.Decoding
import PeerCalls.Proofs.Json.Grammar

/-!
# Reading numbers and records

A number that is written with the digits of a natural is read as this natural.  A record is read
from an object by the names of its fields: what other members there are does not matter, and
neither does the order, as long as no field is there twice.  So two objects with the same fields
give the same record, and a field that is required is there exactly once.
-/

namespace PeerCalls.Json

/-! ## Numbers -/

theorem toList_repr (n : Nat) : Compact.natural n = Nat.toDigits 10 n := by
  rw [Compact.natural, Nat.repr_eq_ofList_toDigits, String.toList_ofList]

theorem digits_natural (n : Nat) : Digits (Compact.natural n) := by
  rw [toList_repr]
  exact ⟨Nat.toDigits_ne_nil, fun c => Nat.isDigit_of_mem_toDigits (by decide) (by decide)⟩

/-- Only the digits of zero begin with a zero. -/
theorem head?_toDigits (n : Nat) (h : (Nat.toDigits 10 n).head? = some '0') : n = 0 := by
  induction n using Nat.strongRecOn with
  | ind n ih =>
      rw [Nat.toDigits_eq_if (by decide)] at h
      split at h
      · rename_i hlt
        have hdigit : n.digitChar = '0' := by simpa using h
        exact Nat.digitChar_eq_zero.mp hdigit
      · rename_i hge
        rw [List.head?_append, List.head?_eq_some_head Nat.toDigits_ne_nil, Option.some_or,
          ← List.head?_eq_some_head] at h
        have hzero := ih (n / 10) (by omega) h
        omega

theorem numeral_natural (n : Nat) : Numeral (Compact.natural n) := by
  have hwhole : Whole (Compact.natural n) := by
    refine ⟨digits_natural n, fun hhead => ?_⟩
    rw [toList_repr] at hhead
    rw [head?_toDigits n hhead]
    rfl
  simpa using Numeral.positive hwhole .absent .absent

namespace Value

/-- The number with the digits of a natural. -/
def natural (n : Nat) : Value := .number (Compact.natural n)

theorem naturalOfDigits?_natural (n : Nat) : naturalOfDigits? (Compact.natural n) = some n := by
  have hdigits := digits_natural n
  have hvalue : (Compact.natural n).foldl
      (fun value digit => value * 10 + (digit.toNat - '0'.toNat)) 0 = n := by
    have hread := @Nat.ofDigitChars_ten_toDigits n
    simp only [Nat.ofDigitChars_eq_foldl, Nat.mul_comm 10] at hread
    rw [toList_repr]
    exact hread
  rw [naturalOfDigits?, if_pos ⟨hdigits.1, List.all_eq_true.mpr hdigits.2⟩, hvalue]

theorem uint32?_natural (n : UInt32) : (natural n.toNat).uint32? = some n := by
  simp [uint32?, natural, naturalBelow?, naturalOfDigits?_natural, n.toNat_lt]

theorem uint64?_natural (n : UInt64) : (natural n.toNat).uint64? = some n := by
  simp [uint64?, natural, naturalBelow?, naturalOfDigits?_natural, n.toNat_lt]

/-- A list of values that are read one by one is read as the list of what they stand for. -/
theorem list?_map {α : Type} {read : Value → Option α} {write : α → Value}
    (h : ∀ item, read (write item) = some item) (items : List α) :
    (array (items.map write)).list? read = some items := by
  rw [list?, List.mapM_map]
  induction items with
  | nil => rfl
  | cons item later ih => simp [h, ih]

/-! ## Records -/

/-- The object with these fields. -/
def record (fields : Fields) : Value := .object (fields.map fun field => (some field.1, field.2))

/-- The fields that have one of the names. -/
def known (names : List String) (fields : Fields) : Fields :=
  fields.filter fun field => names.contains field.1

variable {names : List String} {fields others : Fields} {name : String}

theorem named?_record (fields : Fields) :
    named? (fields.map fun field => (some field.1, field.2)) = some fields := by
  rw [named?, List.mapM_map]
  induction fields with
  | nil => rfl
  | cons field later ih => simp [ih]

theorem fields?_record : (record fields).fields? names =
    if ((known names fields).map Prod.fst).Nodup then some (known names fields) else none := by
  simp only [record, fields?, named?_record]
  rfl

/-- Without repetition, what a name looks up is the field of this name. -/
theorem lookup_eq_some_iff (h : (fields.map Prod.fst).Nodup) {value : Value} :
    fields.lookup name = some value ↔ (name, value) ∈ fields := by
  induction fields with
  | nil => simp
  | cons field later ih =>
      obtain ⟨key, held⟩ := field
      obtain ⟨hfresh, hlater⟩ := List.nodup_cons.mp h
      by_cases hkey : name = key
      · subst hkey
        have habsent : (name, value) ∉ later := fun hmem =>
          hfresh (List.mem_map.mpr ⟨_, hmem, rfl⟩)
        simp [habsent, eq_comm]
      · rw [List.lookup_cons, beq_eq_false_iff_ne.mpr hkey, ih hlater]
        simp [hkey]

/-- The order of the fields does not matter. -/
theorem lookup_eq_of_perm (h : (fields.map Prod.fst).Nodup) (hperm : fields.Perm others)
    (name : String) : fields.lookup name = others.lookup name := by
  have hothers : (others.map Prod.fst).Nodup := (hperm.map Prod.fst).nodup_iff.mp h
  apply Option.ext
  intro value
  rw [lookup_eq_some_iff h, lookup_eq_some_iff hothers, hperm.mem_iff]

/-- A field is still there if its name is among those that are kept. -/
theorem lookup_filter (kept : String → Bool) (fields : Fields) (name : String) :
    (fields.filter fun field => kept field.1).lookup name =
      if kept name then fields.lookup name else none := by
  induction fields with
  | nil => simp
  | cons field later ih =>
      obtain ⟨key, held⟩ := field
      by_cases hkey : name = key
      · subst hkey
        cases hkept : kept name <;> simp [hkept, ih]
      · cases hkept : kept key <;> simp [List.lookup_cons, beq_eq_false_iff_ne.mpr hkey, hkept, ih]

/-- An object that has certain fields and besides them members of other names is read as these
fields. -/
theorem fields?_of_perm (hperm : (known names fields).Perm others)
    (hothers : (others.map Prod.fst).Nodup) :
    ∃ found, (record fields).fields? names = some found ∧
      ∀ name, found.lookup name = others.lookup name := by
  have hnodup := (hperm.map Prod.fst).nodup_iff.mpr hothers
  exact ⟨_, by rw [fields?_record, if_pos hnodup], lookup_eq_of_perm hnodup hperm⟩

/-- A field that is required is there exactly once. -/
theorem count_eq_one_of_required {α : Type} {found : Fields} {read : Value → Option α} {item : α}
    (hfound : (record fields).fields? names = some found) (hname : name ∈ names)
    (hitem : required? found name read = some item) :
    (fields.map Prod.fst).count name = 1 := by
  rw [fields?_record] at hfound
  split at hfound
  · rename_i hnodup
    obtain rfl := Option.some.inj hfound
    obtain ⟨value, hlookup, -⟩ := Option.bind_eq_some_iff.mp hitem
    have hmem := (lookup_eq_some_iff hnodup).mp hlookup
    have honce : ((known names fields).map Prod.fst).count name = 1 :=
      hnodup.count.trans (if_pos (List.mem_map.mpr ⟨_, hmem, rfl⟩))
    -- among all members the name occurs as often as among the fields
    have hknown : ((known names fields).map Prod.fst) =
        (fields.map Prod.fst).filter names.contains := by
      rw [List.filter_map]
      rfl
    rw [hknown, List.count_filter (List.contains_iff_mem.mpr hname)] at honce
    exact honce
  · cases hfound

/-- A field that may be left out has the value that is given, or else the one that is used
without it. -/
theorem optional?_of_lookup {α : Type} {found : Fields} {given : Bool} {value : Value}
    {read : Value → Option α} {item : α} (default : α)
    (hlookup : found.lookup name = if given then some value else none)
    (h : read value = some item) :
    optional? found name read default = some (if given then item else default) := by
  rw [optional?, hlookup]
  cases given
  · rfl
  · exact h

/-! ## Records of two fields -/

section Pair

variable {α β : Type} {first second : String} {read : Value → Option α} {read' : Value → Option β}
  {item : α} {item' : β}

/-- An object with two fields that can be read is read as a record of both. -/
theorem exists_pair {value value' : Value} (hne : first ≠ second)
    (hperm : (known [first, second] fields).Perm [(first, value), (second, value')])
    (h : read value = some item) (h' : read' value' = some item') :
    ∃ found, (record fields).fields? [first, second] = some found ∧
      required? found first read = some item ∧ required? found second read' = some item' := by
  obtain ⟨found, hfound, hlookup⟩ := fields?_of_perm hperm (by simp [hne])
  refine ⟨found, hfound, ?_, ?_⟩
  · rw [required?, hlookup]
    simpa using h
  · rw [required?, hlookup]
    simpa [List.lookup_cons, beq_eq_false_iff_ne.mpr hne.symm] using h'

/-- Both fields of a record that was read are there exactly once. -/
theorem count_eq_one_of_pair {found : Fields}
    (hfound : (record fields).fields? [first, second] = some found)
    (h : required? found first read = some item) (h' : required? found second read' = some item') :
    ∀ name ∈ [first, second], (fields.map Prod.fst).count name = 1 := by
  intro name hname
  have hcases : name = first ∨ name = second := by simpa using hname
  rcases hcases with rfl | rfl
  · exact count_eq_one_of_required hfound hname h
  · exact count_eq_one_of_required hfound hname h'

end Pair

end Value

end PeerCalls.Json
