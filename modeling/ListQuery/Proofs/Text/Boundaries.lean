import ListQuery.Text.Utf8
import Mathlib.Data.List.Flatten
import Mathlib.Data.Nat.Find

/-! Where the bytes of a text can be cut: exactly at the ends of its beginnings. The search
downwards stops at the end of the longest beginning that fits (`exists_longestWithin`), and passes
over three bytes at most (`LongestWithin.le_add_three`). -/
namespace ListQuery
namespace Utf8

variable {cs front other : List Char} {bytes : List UInt8} {n : Nat}

theorem width_le (c : Char) : width c ≤ 4 := by
  simp only [width]
  split
  · decide
  split
  · decide
  split <;> decide

/-- Characters are written as the strings of the library hold them. -/
theorem encodeChar_eq (c : Char) : encodeChar c = String.utf8EncodeChar c := by
  have valid := toNat_valid c
  have code : c.val.toNat = c.toNat := rfl
  simp only [encodeChar, String.utf8EncodeChar, code]
  generalize c.toNat = n at valid
  split
  · rw [if_pos (by omega)]
  split
  · rw [if_neg (by omega), if_pos (by omega)]
    simp [Nat.add_comm, Nat.mod_eq_of_lt (show n / 64 < 32 by omega)]
  split
  · rw [if_neg (by omega), if_neg (by omega), if_pos (by omega)]
    simp [Nat.add_comm, Nat.mod_eq_of_lt (show n / 4096 < 16 by omega)]
  · rw [if_neg (by omega), if_neg (by omega), if_neg (by omega)]
    simp [Nat.add_comm, Nat.mod_eq_of_lt (show n / 262144 < 8 by omega)]

theorem utf8ByteSize_ofList (cs : List Char) :
    (String.ofList cs).utf8ByteSize = (encode cs).length := by
  have same : encodeChar = String.utf8EncodeChar := funext encodeChar_eq
  rw [encode, same, String.utf8ByteSize, String.toByteArray_ofList, List.utf8Encode,
    List.size_toByteArray]

theorem isTail_ofNat_iff {n : Nat} (byte : n < 256) :
    isTail (.ofNat n) = true ↔ 0x80 ≤ n ∧ n < 0xC0 := by
  rw [isTail_iff, toNat_ofNat_of_lt byte]

theorem length_encode_le_of_sublist (h : other.Sublist cs) :
    (encode other).length ≤ (encode cs).length :=
  (h.flatMap encodeChar).length_le

/-- The first byte of a character is no continuation byte, and all others are. -/
theorem exists_encodeChar_eq (c : Char) :
    ∃ lead tails, encodeChar c = lead :: tails ∧ isTail lead = false ∧
      ∀ b ∈ tails, isTail b = true := by
  have valid := toNat_valid c
  have tail (m : Nat) : isTail (.ofNat (0x80 + m % 64)) = true :=
    (isTail_ofNat_iff (by omega)).2 (by omega)
  have lead {m : Nat} (byte : m < 256) (h : m < 0x80 ∨ 0xC0 ≤ m) : isTail (.ofNat m) = false := by
    rw [Bool.eq_false_iff, Ne, isTail_ofNat_iff byte]
    omega
  simp only [encodeChar]
  generalize c.toNat = n at valid
  split
  · exact ⟨_, _, rfl, lead (by omega) (by omega), List.forall_mem_nil _⟩
  split
  · exact ⟨_, _, rfl, lead (by omega) (by omega), List.forall_mem_singleton.2 (tail _)⟩
  split
  · refine ⟨_, _, rfl, lead (by omega) (by omega), ?_⟩
    exact List.forall_mem_cons.2 ⟨tail _, List.forall_mem_singleton.2 (tail _)⟩
  · refine ⟨_, _, rfl, lead (by omega) (by omega), ?_⟩
    exact List.forall_mem_cons.2
      ⟨tail _, List.forall_mem_cons.2 ⟨tail _, List.forall_mem_singleton.2 (tail _)⟩⟩

theorem not_isTail_head_encode (cs : List Char) : ∀ b ∈ (encode cs)[0]?, isTail b = false := by
  cases cs with
  | nil => simp
  | cons c cs =>
    obtain ⟨lead, tails, bytes, first, -⟩ := exists_encodeChar_eq c
    simp [bytes, first]

theorem isBoundary_iff :
    isBoundary bytes n = true ↔
      n = 0 ∨ n ≤ bytes.length ∧ ∀ b ∈ bytes[n]?, isTail b = false := by
  simp only [isBoundary, Bool.or_eq_true, beq_iff_eq, or_assoc]
  rcases Nat.lt_trichotomy n bytes.length with inside | rfl | past
  · simp [List.getElem?_eq_getElem inside, Nat.le_of_lt inside, Nat.ne_of_lt inside]
  · simp
  · simp [List.getElem?_eq_none (Nat.le_of_lt past), Nat.ne_of_gt past, Nat.not_le.2 past]

theorem isBoundary_append_iff {as bs : List UInt8} (start : ∀ b ∈ bs[0]?, isTail b = false) :
    isBoundary (as ++ bs) (as.length + n) = true ↔ isBoundary bs n = true := by
  have byte : (as ++ bs)[as.length + n]? = bs[n]? := by
    rw [List.getElem?_append_right (Nat.le_add_right _ _), Nat.add_sub_cancel_left]
  simp only [isBoundary_iff, byte, List.length_append, Nat.add_le_add_iff_left]
  constructor
  · rintro (none | h)
    · exact .inl (by omega)
    · exact .inr h
  · rintro (rfl | h)
    · exact .inr ⟨Nat.zero_le _, start⟩
    · exact .inr h

/-- Characters are not cut. -/
theorem not_isBoundary_of_lt_width {c : Char} (pos : n ≠ 0) (inside : n < width c) :
    isBoundary (encode (c :: cs)) n = false := by
  obtain ⟨lead, tails, bytes, -, rest⟩ := exists_encodeChar_eq c
  obtain ⟨m, rfl⟩ := Nat.exists_eq_succ_of_ne_zero pos
  have short : m < tails.length := by
    rw [← length_encodeChar, bytes, List.length_cons] at inside
    omega
  have byte : (encode (c :: cs))[m + 1]? = some tails[m] := by
    rw [encode_cons, bytes, List.cons_append, List.getElem?_cons_succ,
      List.getElem?_append_left short, List.getElem?_eq_getElem short]
  rw [Bool.eq_false_iff, Ne, isBoundary_iff]
  rintro (zero | ⟨-, first⟩)
  · exact pos zero
  · exact absurd (rest _ (List.getElem_mem short)) (by simp [first _ byte])

/-- A text can be cut exactly at the ends of its beginnings. -/
theorem isBoundary_encode_iff :
    isBoundary (encode cs) n = true ↔ ∃ front, front <+: cs ∧ (encode front).length = n := by
  constructor
  · intro cut
    -- no cut is within the first character, and one behind it is a cut of the rest
    induction cs generalizing n with
    | nil =>
      have none : n = 0 := by simpa [isBoundary] using cut
      exact ⟨[], List.prefix_rfl, none.symm⟩
    | cons c cs ih =>
      by_cases pos : n = 0
      · exact ⟨[], List.nil_prefix, pos.symm⟩
      by_cases inside : n < width c
      · rw [not_isBoundary_of_lt_width pos inside] at cut
        cases cut
      obtain ⟨m, rfl⟩ := Nat.exists_eq_add_of_le (Nat.not_lt.1 inside)
      rw [encode_cons, ← length_encodeChar,
        isBoundary_append_iff (not_isTail_head_encode cs)] at cut
      obtain ⟨front, begins, size⟩ := ih cut
      exact ⟨c :: front, (List.prefix_cons_inj c).2 begins, by simp [size]⟩
  · rintro ⟨front, ⟨rest, rfl⟩, rfl⟩
    rw [encode_append, ← Nat.add_zero (encode front).length,
      isBoundary_append_iff (not_isTail_head_encode rest)]
    rfl

/-- The search finds the greatest boundary. -/
theorem boundary?_eq (bytes : List UInt8) (n : Nat) :
    boundary? bytes n = some (Nat.findGreatest (fun m => isBoundary bytes m = true) n) := by
  induction n with
  | zero => rfl
  | succ n ih =>
    rw [boundary?, Nat.findGreatest_succ]
    split
    · rfl
    · exact ih

/-- The longest beginning of a text within so many bytes. -/
structure LongestWithin (budget : Nat) (cs front : List Char) : Prop where
  begins : front <+: cs
  fits : (String.ofList front).utf8ByteSize ≤ budget
  longest : ∀ other, other <+: cs → (String.ofList other).utf8ByteSize ≤ budget → other <+: front

/-- Of two beginnings of a text, the one with fewer bytes begins the other. -/
theorem isPrefix_of_length_encode_le (hother : other <+: cs) (hfront : front <+: cs)
    (h : (encode other).length ≤ (encode front).length) : other <+: front := by
  rcases List.prefix_or_prefix_of_prefix hother hfront with shorter | ⟨rest, rfl⟩
  · exact shorter
  · have more := length_le_length_encode rest
    have none : rest = [] := by
      rw [encode_append, List.length_append] at h
      exact List.length_eq_zero_iff.1 (by omega)
    simp [none]

/-- A beginning with fewer bytes than it takes to the end of `c` ends before `c`. -/
theorem isPrefix_of_length_encode_lt {c : Char} {rest : List Char}
    (begins : other <+: front ++ c :: rest)
    (h : (encode other).length < (encode (front ++ [c])).length) : other <+: front := by
  have start : front ++ [c] <+: front ++ c :: rest := ⟨rest, by simp⟩
  have shorter := isPrefix_of_length_encode_le begins start (Nat.le_of_lt h)
  rcases List.prefix_concat_iff.1 shorter with rfl | shorter
  · exact absurd h (Nat.lt_irrefl _)
  · exact shorter

/-- The search stops at the end of the longest beginning. -/
theorem exists_longestWithin (n : Nat) (cs : List Char) :
    ∃ front, LongestWithin n cs front ∧
      boundary? (encode cs) n = some (encode front).length := by
  have found := Nat.findGreatest_spec (P := (isBoundary (encode cs) · = true)) (Nat.zero_le n) rfl
  obtain ⟨front, begins, size⟩ := isBoundary_encode_iff.1 found
  have fits : (String.ofList front).utf8ByteSize ≤ n := by
    rw [utf8ByteSize_ofList, size]
    exact Nat.findGreatest_le n
  refine ⟨front, ⟨begins, fits, ?_⟩, by rw [boundary?_eq, size]⟩
  intro other hother within
  rw [utf8ByteSize_ofList] at within
  apply isPrefix_of_length_encode_le hother begins
  rw [size]
  exact Nat.le_findGreatest within (isBoundary_encode_iff.2 ⟨other, hother, rfl⟩)

/-- The second byte of a character is passed over. -/
example : boundary? (encode ['a', 'é']) 2 = some 1 := by decide

namespace LongestWithin

theorem unique (h : LongestWithin n cs front) (h' : LongestWithin n cs other) : front = other :=
  (h'.longest front h.begins h.fits).eq_of_length_le
    (h.longest other h'.begins h'.fits).length_le

theorem of_length_le (short : (encode cs).length ≤ n) : LongestWithin n cs cs where
  begins := List.prefix_rfl
  fits := by rwa [utf8ByteSize_ofList]
  longest _ begins _ := begins

/-- A beginning that fits is the longest if the next character does not fit as well. -/
theorem of_next {c : Char} {rest : List Char} (fits : (encode front).length ≤ n)
    (late : n < (encode (front ++ [c])).length) : LongestWithin n (front ++ c :: rest) front where
  begins := List.prefix_append ..
  fits := by rwa [utf8ByteSize_ofList]
  longest _ begins within := by
    rw [utf8ByteSize_ofList] at within
    exact isPrefix_of_length_encode_lt begins (Nat.lt_of_le_of_lt within late)

theorem boundary?_eq (h : LongestWithin n cs front) :
    boundary? (encode cs) n = some (encode front).length := by
  obtain ⟨other, h', found⟩ := exists_longestWithin n cs
  rw [h.unique h', found]

/-- Less than a character is missing up to the limit. -/
theorem le_add_three (h : LongestWithin n cs front) (long : n ≤ (encode cs).length) :
    n ≤ (encode front).length + 3 := by
  obtain ⟨rest, rfl⟩ := h.begins
  cases rest with
  | nil =>
    rw [List.append_nil] at long
    omega
  | cons c rest =>
    by_contra far
    have size : (encode (front ++ [c])).length ≤ (encode front).length + 4 := by
      simpa [encode_append] using width_le c
    have longer := h.longest (front ++ [c]) ⟨rest, by simp⟩ (by rw [utf8ByteSize_ofList]; omega)
    have shorter := longer.length_le
    rw [List.length_append, List.length_singleton] at shorter
    omega

end LongestWithin

/-- What is cut off between two characters is read back without loss. -/
theorem front?_encode (h : front <+: cs) :
    front? (encode cs) (encode front).length = some front := by
  rw [front?, if_pos (isBoundary_encode_iff.2 ⟨front, h, rfl⟩)]
  obtain ⟨rest, rfl⟩ := h
  rw [encode_append, List.take_left, decode_encode]

end Utf8
end ListQuery
