/-! UTF-8: writing characters as bytes, reading bytes back with every ill-formed piece replaced, and
cutting bytes between characters. What was written is read back (`decode_encode`). -/
namespace ListQuery
namespace Utf8

def encodeChar (c : Char) : List UInt8 :=
  let n := c.toNat
  if n < 0x80 then [.ofNat n]
  else if n < 0x800 then [.ofNat (0xC0 + n / 64), .ofNat (0x80 + n % 64)]
  else if n < 0x10000 then
    [.ofNat (0xE0 + n / 4096), .ofNat (0x80 + n / 64 % 64), .ofNat (0x80 + n % 64)]
  else
    [.ofNat (0xF0 + n / 262144), .ofNat (0x80 + n / 4096 % 64), .ofNat (0x80 + n / 64 % 64),
      .ofNat (0x80 + n % 64)]

def encode (cs : List Char) : List UInt8 := cs.flatMap encodeChar

def width (c : Char) : Nat :=
  let n := c.toNat
  if n < 0x80 then 1 else if n < 0x800 then 2 else if n < 0x10000 then 3 else 4

@[simp] theorem length_encodeChar (c : Char) : (encodeChar c).length = width c := by
  simp only [encodeChar, width]
  split
  · rfl
  split
  · rfl
  split <;> rfl

@[simp] theorem encode_nil : encode [] = [] := rfl

@[simp] theorem encode_cons (c : Char) (cs : List Char) :
    encode (c :: cs) = encodeChar c ++ encode cs := by
  simp [encode]

theorem encode_append (as bs : List Char) : encode (as ++ bs) = encode as ++ encode bs := by
  simp [encode]

theorem width_pos (c : Char) : 0 < width c := by
  simp only [width]
  split
  · decide
  split
  · decide
  split <;> decide

theorem length_le_length_encode (cs : List Char) : cs.length ≤ (encode cs).length := by
  induction cs with
  | nil => exact Nat.le_refl 0
  | cons c cs ih =>
    have some := width_pos c
    rw [encode_cons, List.length_append, length_encodeChar, List.length_cons]
    omega

/-- Continuation bytes. -/
def isTail (b : UInt8) : Bool := 0x80 ≤ b.toNat && b.toNat < 0xC0

/-- Whether `b` may follow the lead byte `a`: shorter forms of a character, surrogates and code
points past the last plane are cut off here. -/
def isSecond (a b : UInt8) : Bool :=
  let m := a.toNat
  let n := b.toNat
  if 0xC2 ≤ m && m < 0xE0 then isTail b
  else if m == 0xE0 then 0xA0 ≤ n && n < 0xC0
  else if m == 0xED then 0x80 ≤ n && n < 0xA0
  else if 0xE1 ≤ m && m < 0xF0 then isTail b
  else if m == 0xF0 then 0x90 ≤ n && n < 0xC0
  else if m == 0xF4 then 0x80 ≤ n && n < 0x90
  else if 0xF1 ≤ m && m < 0xF4 then isTail b
  else false

/-- The character that stands for an ill-formed piece. -/
def replacement : Char := '\uFFFD'

/-- Reads bytes as characters. A piece that begins like a character and breaks off is replaced as a
whole, and reading goes on at the byte that broke it. -/
def decode : List UInt8 → List Char
  | [] => []
  | a :: as =>
    if a.toNat < 0x80 then Char.ofNat a.toNat :: decode as
    else
      match as with
      | [] => [replacement]
      | b :: bs =>
        if !isSecond a b then replacement :: decode (b :: bs)
        else if a.toNat < 0xE0 then
          Char.ofNat ((a.toNat - 0xC0) * 64 + (b.toNat - 0x80)) :: decode bs
        else
          match bs with
          | [] => [replacement]
          | c :: cs =>
            if !isTail c then replacement :: decode (c :: cs)
            else if a.toNat < 0xF0 then
              Char.ofNat ((a.toNat - 0xE0) * 4096 + (b.toNat - 0x80) * 64 + (c.toNat - 0x80)) ::
                decode cs
            else
              match cs with
              | [] => [replacement]
              | d :: ds =>
                if !isTail d then replacement :: decode (d :: ds)
                else
                  Char.ofNat ((a.toNat - 0xF0) * 262144 + (b.toNat - 0x80) * 4096 +
                    (c.toNat - 0x80) * 64 + (d.toNat - 0x80)) :: decode ds

theorem decode_one {a : UInt8} (as : List UInt8) (ha : a.toNat < 0x80) :
    decode (a :: as) = Char.ofNat a.toNat :: decode as := by
  rw [decode.eq_def]
  simp [ha]

theorem decode_two {a b : UInt8} (bs : List UInt8) (ha : 0x80 ≤ a.toNat) (ha' : a.toNat < 0xE0)
    (hb : isSecond a b = true) :
    decode (a :: b :: bs) =
      Char.ofNat ((a.toNat - 0xC0) * 64 + (b.toNat - 0x80)) :: decode bs := by
  rw [decode.eq_def]
  simp [Nat.not_lt.2 ha, ha', hb]

theorem decode_three {a b c : UInt8} (cs : List UInt8) (ha : 0xE0 ≤ a.toNat)
    (ha' : a.toNat < 0xF0) (hb : isSecond a b = true) (hc : isTail c = true) :
    decode (a :: b :: c :: cs) =
      Char.ofNat ((a.toNat - 0xE0) * 4096 + (b.toNat - 0x80) * 64 + (c.toNat - 0x80)) ::
        decode cs := by
  have h : ¬ a.toNat < 0x80 := by omega
  rw [decode.eq_def]
  simp [h, Nat.not_lt.2 ha, ha', hb, hc]

theorem decode_four {a b c d : UInt8} (ds : List UInt8) (ha : 0xF0 ≤ a.toNat)
    (hb : isSecond a b = true) (hc : isTail c = true) (hd : isTail d = true) :
    decode (a :: b :: c :: d :: ds) =
      Char.ofNat ((a.toNat - 0xF0) * 262144 + (b.toNat - 0x80) * 4096 + (c.toNat - 0x80) * 64 +
        (d.toNat - 0x80)) :: decode ds := by
  have h : ¬ a.toNat < 0x80 := by omega
  have h' : ¬ a.toNat < 0xE0 := by omega
  rw [decode.eq_def]
  simp [h, h', Nat.not_lt.2 ha, hb, hc, hd]

theorem toNat_ofNat_of_lt {n : Nat} (h : n < 256) : (UInt8.ofNat n).toNat = n := by
  simpa using Nat.mod_eq_of_lt h

theorem isTail_iff (b : UInt8) : isTail b = true ↔ 0x80 ≤ b.toNat ∧ b.toNat < 0xC0 := by
  simp [isTail]

theorem toNat_valid (c : Char) : c.toNat < 0xD800 ∨ 0xDFFF < c.toNat ∧ c.toNat < 0x110000 := by
  have h := c.valid
  simp only [UInt32.isValidChar, Nat.isValidChar] at h
  have e : c.toNat = c.val.toNat := rfl
  omega

/-- A character is read back from its bytes, whatever follows them. -/
theorem decode_encodeChar (c : Char) (rest : List UInt8) :
    decode (encodeChar c ++ rest) = c :: decode rest := by
  have hv := toNat_valid c
  have hc : Char.ofNat c.toNat = c := Char.ofNat_toNat c
  generalize hn : c.toNat = n at hv hc
  unfold encodeChar
  simp only [hn]
  split
  · rename_i h
    have h1 := toNat_ofNat_of_lt (n := n) (by omega)
    rw [List.singleton_append, decode_one _ (by omega), h1, hc]
  split
  · rename_i h0 h
    have h1 := toNat_ofNat_of_lt (n := 0xC0 + n / 64) (by omega)
    have h2 := toNat_ofNat_of_lt (n := 0x80 + n % 64) (by omega)
    have hs : isSecond (.ofNat (0xC0 + n / 64)) (.ofNat (0x80 + n % 64)) = true := by
      unfold isSecond
      grind [isTail]
    rw [List.cons_append, List.singleton_append, decode_two _ (by omega) (by omega) hs, h1, h2,
      show (0xC0 + n / 64 - 0xC0) * 64 + (0x80 + n % 64 - 0x80) = n by omega, hc]
  split
  · rename_i h0 h1 h
    have h1 := toNat_ofNat_of_lt (n := 0xE0 + n / 4096) (by omega)
    have h2 := toNat_ofNat_of_lt (n := 0x80 + n / 64 % 64) (by omega)
    have h3 := toNat_ofNat_of_lt (n := 0x80 + n % 64) (by omega)
    have hs : isSecond (.ofNat (0xE0 + n / 4096)) (.ofNat (0x80 + n / 64 % 64)) = true := by
      unfold isSecond
      grind [isTail]
    have ht : isTail (.ofNat (0x80 + n % 64)) = true := by
      rw [isTail_iff]; omega
    simp only [List.cons_append, List.nil_append]
    rw [decode_three _ (by omega) (by omega) hs ht, h1, h2, h3,
      show (0xE0 + n / 4096 - 0xE0) * 4096 + (0x80 + n / 64 % 64 - 0x80) * 64 +
        (0x80 + n % 64 - 0x80) = n by omega, hc]
  · rename_i h0 h1 h
    have h1 := toNat_ofNat_of_lt (n := 0xF0 + n / 262144) (by omega)
    have h2 := toNat_ofNat_of_lt (n := 0x80 + n / 4096 % 64) (by omega)
    have h3 := toNat_ofNat_of_lt (n := 0x80 + n / 64 % 64) (by omega)
    have h4 := toNat_ofNat_of_lt (n := 0x80 + n % 64) (by omega)
    have hs : isSecond (.ofNat (0xF0 + n / 262144)) (.ofNat (0x80 + n / 4096 % 64)) = true := by
      unfold isSecond
      grind [isTail]
    have ht : isTail (.ofNat (0x80 + n / 64 % 64)) = true := by
      rw [isTail_iff]; omega
    have ht' : isTail (.ofNat (0x80 + n % 64)) = true := by
      rw [isTail_iff]; omega
    simp only [List.cons_append, List.nil_append]
    rw [decode_four _ (by omega) hs ht ht', h1, h2, h3, h4,
      show (0xF0 + n / 262144 - 0xF0) * 262144 + (0x80 + n / 4096 % 64 - 0x80) * 4096 +
        (0x80 + n / 64 % 64 - 0x80) * 64 + (0x80 + n % 64 - 0x80) = n by omega, hc]

theorem decode_encode (cs : List Char) : decode (encode cs) = cs := by
  induction cs with
  | nil => rfl
  | cons c cs ih => rw [encode_cons, decode_encodeChar, ih]

/-- A place at either end, or one that no continuation byte follows. -/
def isBoundary (bytes : List UInt8) (n : Nat) : Bool :=
  n == 0 || n == bytes.length || bytes[n]?.any (!isTail ·)

/-- Looks for a boundary at `n` and then further down; there is no place below the first byte. -/
def boundary? (bytes : List UInt8) : Nat → Option Nat
  | 0 => if isBoundary bytes 0 then some 0 else none
  | n + 1 => if isBoundary bytes (n + 1) then some (n + 1) else boundary? bytes n

/-- The text up to a boundary. Bytes are cut nowhere else. -/
def front? (bytes : List UInt8) (n : Nat) : Option (List Char) :=
  if isBoundary bytes n then some (decode (bytes.take n)) else none

theorem isSome_boundary? (bytes : List UInt8) (n : Nat) : (boundary? bytes n).isSome = true := by
  induction n with
  | zero => rfl
  | succ n ih =>
    rw [boundary?]
    split
    · rfl
    · exact ih

/-- Where the search stops, bytes can be cut. -/
theorem isSome_front?_of_boundary? {bytes : List UInt8} {n stop : Nat}
    (h : boundary? bytes n = some stop) : (front? bytes stop).isSome = true := by
  induction n with
  | zero =>
    obtain rfl := Option.some.inj h
    rfl
  | succ n ih =>
    rw [boundary?] at h
    split at h
    next found =>
      obtain rfl := Option.some.inj h
      simp [front?, found]
    next => exact ih h

end Utf8
end ListQuery
